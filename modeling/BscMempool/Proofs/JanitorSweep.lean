/-
Module: BscMempool.Proofs.JanitorSweep
Layer: Proofs
Purpose: What a sweep leaves of the capture directory: of the segments that are not too old all but
  the shortest oldest-first prefix whose removal brings the total size within the retention, and
  every other file.
Trusted boundary: none
Main exports: totalLen, ShortestPrefix, Swept, sweep_evicts_shortest_prefix
-/
import BscMempool.Telemetry.Janitor

namespace BscMempool.Telemetry

def totalLen (files : List SegmentFile) : Nat := (files.map SegmentFile.len).sum

@[simp] theorem totalLen_nil : totalLen [] = 0 := rfl

@[simp] theorem totalLen_cons (f : SegmentFile) (rest : List SegmentFile) :
    totalLen (f :: rest) = f.len + totalLen rest := rfl

theorem totalLen_perm {files files' : List SegmentFile} (perm : files.Perm files') :
    totalLen files = totalLen files' :=
  (perm.map SegmentFile.len).sum_nat

theorem totalLen_filter_le (files : List SegmentFile) (p : SegmentFile → Bool) :
    totalLen (files.filter p) ≤ totalLen files := by
  induction files with
  | nil => exact le_rfl
  | cons f rest ih =>
      by_cases kept : p f
      · simpa [kept] using ih
      · simp only [List.filter_cons, kept, Bool.false_eq_true, if_false, totalLen_cons]
        omega

def names (files : List SegmentFile) : List (List Char) := files.map SegmentFile.name

/-- Of `files`, `evicted` is the shortest prefix without which the rest is within the retention. -/
structure ShortestPrefix (retentionBytes : Nat) (files evicted kept : List SegmentFile) : Prop where
  split : files = evicted ++ kept
  within : totalLen kept ≤ retentionBytes
  shortest : ∀ evicted' kept', files = evicted' ++ kept' → totalLen kept' ≤ retentionBytes →
    evicted.length ≤ evicted'.length

/-- What a sweep promises: `fresh` are the segments that are not too old, `sorted` these in the
order of their times. -/
structure Swept (d d' : Directory) (now : Int) (retentionBytes maxAge : Nat)
    (files sorted evicted kept : List SegmentFile) : Prop where
  order : sorted.Perm (files.filter fun f => !aged now maxAge f)
  oldest : sorted.Pairwise fun f g => f.modified ≤ g.modified
  evicted : ShortestPrefix retentionBytes sorted evicted kept
  /-- What is not a segment is still there, and of the segments those that were kept. -/
  left : d'.entries = d.entries.filter fun e => !isZst e.name || decide (e.name ∈ names kept)

/-! ### Removals -/

/-- The files of these names are gone, all others are there. -/
def Without (d d' : Directory) (gone : List (List Char)) : Prop :=
  d'.entries = d.entries.filter fun e => decide (e.name ∉ gone)

theorem without_nil (d : Directory) : Without d d [] := by simp [Without]

theorem Without.remove {d d' : Directory} {gone : List (List Char)} (without : Without d d' gone)
    (name : List Char) :
    Without d (d'.remove name) (gone ++ [name]) := by
  rw [Without] at without
  have removed : (d'.remove name).entries = d'.entries.filter fun e => decide (e.name ≠ name) := rfl
  rw [Without, removed, without, List.filter_filter]
  congr 1
  funext e
  by_cases same : e.name = name <;> by_cases before : e.name ∈ gone <;> simp [same, before]

theorem Without.exists_iff {d d' : Directory} {gone : List (List Char)}
    (without : Without d d' gone)
    {e : DirEntry} (there : e ∈ d.entries) : d'.exists_ e.name = true ↔ e.name ∉ gone := by
  rw [Without] at without
  simp only [Directory.exists_, List.any_eq_true, without, List.mem_filter, decide_eq_true_eq,
    beq_iff_eq]
  constructor
  · rintro ⟨e', ⟨-, kept⟩, same⟩
    rwa [← same]
  · intro kept
    exact ⟨e, ⟨there, kept⟩, rfl⟩

/-! ### The two loops -/

section
variable {removable : List Char → Bool} (succeeds : ∀ name, removable name = true)
include succeeds

theorem removeFile_eq (d : Directory) (name : List Char) :
    removeFile removable d name = d.remove name := by
  rw [removeFile, if_pos (succeeds name)]

/-- The first loop removes the aged segments and adds up the others, as long as a
`u64` holds the sum. -/
theorem dropAged_spec {now : Int} {maxAge : Nat} {d : Directory} {gone : List (List Char)}
    (files : List SegmentFile) {d' : Directory} {total : Nat} (without : Without d d' gone)
    (fits : total + totalLen (files.filter fun f => !aged now maxAge f) < 2 ^ 64) :
    Without d (dropAged removable now maxAge files d' total).1
      (gone ++ names (files.filter (aged now maxAge))) ∧
      (dropAged removable now maxAge files d' total).2 = total +
        totalLen (files.filter fun f => !aged now maxAge f) := by
  induction files generalizing d' gone total with
  | nil => exact ⟨by simpa [dropAged, names] using without, rfl⟩
  | cons f rest ih =>
      by_cases old : aged now maxAge f = true
      · simp only [List.filter_cons, old, Bool.not_true, Bool.false_eq_true, if_false] at fits
        have later := ih (without.remove f.name) fits
        simp only [dropAged, old, if_true, removeFile_eq succeeds, List.filter_cons, Bool.not_true,
          Bool.false_eq_true,
          if_false, names, List.map_cons]
        rwa [List.append_assoc] at later
      · simp only [List.filter_cons, old, Bool.not_false, if_true, totalLen_cons] at fits
        have sum : saturatingAdd total f.len = total + f.len := by
          rw [saturatingAdd]
          omega
        have room : saturatingAdd total f.len + totalLen (rest.filter fun f => !aged now maxAge f) <
            2 ^ 64 := by omega
        have later := ih without room
        simp only [dropAged, old, Bool.false_eq_true, if_false, List.filter_cons, Bool.not_false,
          if_true, totalLen_cons]
        rw [sum, Nat.add_assoc] at later
        rw [sum]
        exact later

/-- The second loop removes the shortest prefix without which the rest is within the retention. -/
theorem evict_spec {retentionBytes : Nat} {d : Directory} {gone : List (List Char)}
    (files : List SegmentFile) {d' : Directory} (without : Without d d' gone) :
    ∃ evicted kept, ShortestPrefix retentionBytes files evicted kept ∧
      Without d (evict removable retentionBytes files d' (totalLen files))
        (gone ++ names evicted) := by
  induction files generalizing d' gone with
  | nil =>
      exact ⟨[], [], ⟨rfl, Nat.zero_le _, fun _ _ _ _ => Nat.zero_le _⟩,
        by simpa [evict, names] using without⟩
  | cons f rest ih =>
      by_cases enough : totalLen (f :: rest) ≤ retentionBytes
      · refine ⟨[], f :: rest, ⟨rfl, enough, fun _ _ _ _ => Nat.zero_le _⟩, ?_⟩
        rw [evict, if_pos enough]
        simpa [names] using without
      · obtain ⟨evicted, kept, shortest, later⟩ := ih (without.remove f.name)
        refine ⟨f :: evicted, kept, ⟨by rw [shortest.split]; rfl, shortest.within, ?_⟩, ?_⟩
        · intro evicted' kept' split within
          cases evicted' with
          | nil =>
              rw [List.nil_append] at split
              rw [split] at enough
              exact absurd within enough
          | cons f' evicted' =>
              rw [List.cons_append] at split
              injection split with _ split
              exact Nat.succ_le_succ (shortest.shortest evicted' kept' split within)
        · have remaining : totalLen (f :: rest) - f.len = totalLen rest := by simp
          rw [evict, if_neg enough, removeFile_eq succeeds, remaining, names, List.map_cons]
          rwa [List.append_assoc] at later

end

/-! ### The listing -/

theorem DirEntry.segment_name {e : DirEntry} {f : SegmentFile} (read : e.segment = .ok f) :
    f.name = e.name := by
  rw [segment] at read
  cases found : e.metadata with
  | error msg => simp [found, Except.map] at read
  | ok md =>
      simp only [found, Except.map, Except.ok.injEq] at read
      rw [← read]

theorem listing_names {d : Directory} {files : List SegmentFile} (listed : listing d = .ok files) :
    names files = (d.entries.filter fun e => isZst e.name).map DirEntry.name := by
  rw [listing] at listed
  generalize (d.entries.filter fun e => isZst e.name) = entries at listed
  induction entries generalizing files with
  | nil =>
      cases listed
      rfl
  | cons e rest ih =>
      cases read : e.segment with
      | error msg => simp [List.mapM_cons, read, bind, Except.bind] at listed
      | ok f =>
          cases others : rest.mapM DirEntry.segment with
          | error msg => simp [List.mapM_cons, read, others, bind, Except.bind] at listed
          | ok tail =>
              simp only [List.mapM_cons, read, others, bind, Except.bind, pure, Except.pure,
                Except.ok.injEq] at listed
              rw [← listed, names, List.map_cons, List.map_cons, DirEntry.segment_name read]
              exact congrArg _ (ih others)

section
variable {d : Directory} {files : List SegmentFile} (listed : listing d = .ok files)
include listed

/-- A listed segment is an entry of the directory, and its name is that of a segment. -/
theorem exists_entry {f : SegmentFile} (member : f ∈ files) :
    ∃ e ∈ d.entries, e.name = f.name ∧ isZst f.name = true := by
  have named : f.name ∈ names files := List.mem_map_of_mem member
  rw [listing_names listed, List.mem_map] at named
  obtain ⟨e, found, same⟩ := named
  obtain ⟨there, zst⟩ := List.mem_filter.mp found
  exact ⟨e, there, same, by rw [← same]; exact zst⟩

theorem exists_segment {e : DirEntry} (there : e ∈ d.entries) (zst : isZst e.name = true) :
    ∃ f ∈ files, f.name = e.name := by
  have named : e.name ∈ names files := by
    rw [listing_names listed]
    exact List.mem_map_of_mem (List.mem_filter.mpr ⟨there, zst⟩)
  exact List.mem_map.mp named

theorem names_nodup : (names files).Nodup := by
  rw [listing_names listed]
  exact d.distinct.sublist (List.Sublist.map _ List.filter_sublist)

theorem files_nodup : files.Nodup := List.Nodup.of_map _ (names_nodup listed)

/-- Segments of one name are one. -/
theorem segment_unique {f g : SegmentFile} (f_mem : f ∈ files) (g_mem : g ∈ files)
    (same : f.name = g.name) :
    f = g :=
  List.inj_on_of_nodup_map (names_nodup listed) f_mem g_mem same

/-- What is listed still exists after the first loop unless it is aged. -/
theorem surviving_eq {d' : Directory} {now : Int} {maxAge : Nat}
    (without : Without d d' (names (files.filter (aged now maxAge)))) :
    (files.filter fun f => d'.exists_ f.name) = files.filter fun f => !aged now maxAge f := by
  apply List.filter_congr
  intro f member
  obtain ⟨e, there, same, -⟩ := exists_entry listed member
  rw [Bool.eq_iff_iff, ← same, without.exists_iff there, same]
  simp only [names, List.mem_map, List.mem_filter, Bool.not_eq_true', not_exists, not_and]
  constructor
  · intro kept
    by_contra old
    exact kept f ⟨member, by simpa using old⟩ rfl
  · intro young g g_old sameName
    rw [segment_unique listed g_old.1 member sameName, young] at g_old
    exact absurd g_old.2 (by simp)

/-- A segment is among some of the listed ones if its name is. -/
theorem name_mem_iff {f : SegmentFile} (f_mem : f ∈ files) {some_ : List SegmentFile}
    (listedToo : ∀ g ∈ some_, g ∈ files) : f.name ∈ names some_ ↔ f ∈ some_ := by
  constructor
  · intro named
    obtain ⟨g, g_mem, same⟩ := List.mem_map.mp named
    rwa [← segment_unique listed (listedToo g g_mem) f_mem same]
  · exact List.mem_map_of_mem

/-- What is neither aged nor evicted is a segment that is kept, or no segment. -/
theorem left_iff {now : Int} {retentionBytes maxAge : Nat} {sorted evicted kept : List SegmentFile}
    (shortest : ShortestPrefix retentionBytes sorted evicted kept)
    (perm : sorted.Perm (files.filter fun f => !aged now maxAge f)) {e : DirEntry}
    (there : e ∈ d.entries) :
    e.name ∉ names (files.filter (aged now maxAge)) ∧ e.name ∉ names evicted ↔
      isZst e.name = false ∨ e.name ∈ names kept := by
  have split := shortest.split
  subst split
  have young : ∀ g ∈ evicted ++ kept, g ∈ files ∧ aged now maxAge g = false := by
    intro g member
    simpa using List.mem_filter.mp (perm.subset member)
  have evictedListed : ∀ g ∈ evicted, g ∈ files :=
    fun g member => (young g (List.mem_append_left _ member)).1
  have keptListed : ∀ g ∈ kept, g ∈ files :=
    fun g member => (young g (List.mem_append_right _ member)).1
  have agedListed : ∀ g ∈ files.filter (aged now maxAge), g ∈ files :=
    fun g member => (List.mem_filter.mp member).1
  cases zst : isZst e.name with
  | false =>
      have notNamed : ∀ some_ : List SegmentFile, (∀ g ∈ some_, g ∈ files) →
          e.name ∉ names some_ := by
        intro some_ listedToo named
        obtain ⟨g, g_mem, same⟩ := List.mem_map.mp named
        obtain ⟨-, -, -, isSegment⟩ := exists_entry listed (listedToo g g_mem)
        rw [same, zst] at isSegment
        cases isSegment
      simp [notNamed _ agedListed, notNamed _ evictedListed]
  | true =>
      obtain ⟨f, f_mem, same⟩ := exists_segment listed there zst
      rw [← same, name_mem_iff listed f_mem agedListed, name_mem_iff listed f_mem evictedListed,
        name_mem_iff listed f_mem keptListed]
      have apart : f ∈ evicted → f ∉ kept := by
        have nodup := perm.nodup_iff.mpr ((files_nodup listed).filter _)
        exact fun inEvicted inKept => List.disjoint_of_nodup_append nodup inEvicted inKept
      cases old : aged now maxAge f with
      | true =>
          have notKept : f ∉ kept := by
            intro inKept
            have fresh := (young f (List.mem_append_right _ inKept)).2
            rw [old] at fresh
            cases fresh
          simp [f_mem, old, notKept]
      | false =>
          have member : f ∈ evicted ∨ f ∈ kept :=
            List.mem_append.mp (perm.mem_iff.mpr (List.mem_filter.mpr ⟨f_mem, by simp [old]⟩))
          have notAged : f ∉ files.filter (aged now maxAge) := by simp [old]
          simp only [notAged, not_false_eq_true, true_and, Bool.true_eq_false, false_or]
          tauto

end

/-! ### The sweep -/

theorem pairwise_oldestFirst (files : List SegmentFile) :
    (oldestFirst files).Pairwise fun f g => f.modified ≤ g.modified := by
  have total : Std.Total fun f g : SegmentFile => f.modified ≤ g.modified :=
    ⟨fun f g => le_total f.modified g.modified⟩
  have transitive : IsTrans SegmentFile fun f g => f.modified ≤ g.modified :=
    ⟨fun _ _ _ => le_trans⟩
  exact List.pairwise_insertionSort _ files

/-- For every directory whose segments' metadata can be read, every retention, age and time: if
    removals succeed and a `u64` holds the total size, the sweep evicts the shortest oldest-first
    prefix of the segments that are not aged. -/
theorem sweep_evicts_shortest_prefix {removable : List Char → Bool}
    (succeeds : ∀ name, removable name = true)
    {d : Directory} {files : List SegmentFile} (listed : listing d = .ok files)
    (fits : totalLen files < 2 ^ 64) (now : Int) (retentionBytes maxAge : Nat) :
    ∃ d' sorted evicted kept, sweepDirectory removable d now retentionBytes maxAge = .ok d' ∧
      Swept d d' now retentionBytes maxAge files sorted evicted kept := by
  have freshFits := totalLen_filter_le files fun f => !aged now maxAge f
  have room : 0 + totalLen (files.filter fun f => !aged now maxAge f) < 2 ^ 64 := by omega
  obtain ⟨dropped, total⟩ := dropAged_spec succeeds files (without_nil d) room
  rw [List.nil_append] at dropped
  rw [Nat.zero_add] at total
  have perm : (oldestFirst (files.filter fun f => !aged now maxAge f)).Perm
      (files.filter fun f => !aged now maxAge f) :=
    List.perm_insertionSort _ _
  have sorted := pairwise_oldestFirst (files.filter fun f => !aged now maxAge f)
  -- both ends of the sweep leave the directory without the aged segments and a prefix of the others
  obtain ⟨evicted, kept, shortest, d', result, without⟩ : ∃ evicted kept,
      ShortestPrefix retentionBytes (oldestFirst (files.filter fun f => !aged now maxAge f))
        evicted kept ∧
      ∃ d', sweepDirectory removable d now retentionBytes maxAge = .ok d' ∧
        Without d d' (names (files.filter (aged now maxAge)) ++ names evicted) := by
    by_cases large : totalLen (files.filter fun f => !aged now maxAge f) > retentionBytes
    · obtain ⟨evicted, kept, shortest, without⟩ := @evict_spec removable succeeds retentionBytes _ _
        (oldestFirst (files.filter fun f => !aged now maxAge f)) _ dropped
      rw [totalLen_perm perm] at without
      refine ⟨evicted, kept, shortest, _, ?_, without⟩
      simp only [sweepDirectory, listed, bind, Except.bind, pure, Except.pure, total, large,
        if_true,
        surviving_eq listed dropped]
    · refine ⟨[], oldestFirst (files.filter fun f => !aged now maxAge f),
        ⟨(List.nil_append _).symm, ?_, fun _ _ _ _ => Nat.zero_le _⟩,
        (dropAged removable now maxAge files d 0).1, ?_, ?_⟩
      · rw [totalLen_perm perm]
        exact Nat.not_lt.mp large
      · simp only [sweepDirectory, listed, bind, Except.bind, pure, Except.pure, total, large,
          if_false]
      · simpa [names] using dropped
  refine ⟨d', _, evicted, kept, result, perm, sorted, shortest, ?_⟩
  rw [Without] at without
  rw [without]
  apply List.filter_congr
  intro e there
  rw [Bool.eq_iff_iff, decide_eq_true_iff, Bool.or_eq_true, Bool.not_eq_true', decide_eq_true_iff,
    List.mem_append,
    not_or]
  exact left_iff listed shortest perm there

def threeSegments : Directory where
  entries := [⟨"a.zst".toList, .ok ⟨5, 100⟩⟩, ⟨"note.txt".toList, .ok ⟨99, 1⟩⟩,
    ⟨"c.zst".toList, .ok ⟨9, 950⟩⟩,
    ⟨"b.zst".toList, .ok ⟨7, 900⟩⟩]
  distinct := by decide

/-- Of three segments and a note, the oldest is past its age and the next one too much:
the youngest is kept. -/
theorem sweep_three_segments :
    ∃ d' sorted evicted kept, sweepDirectory (fun _ => true) threeSegments 1000 10 500 = .ok d' ∧
      Swept threeSegments d' 1000 10 500 [⟨"a.zst".toList, 5, 100⟩, ⟨"c.zst".toList, 9, 950⟩,
        ⟨"b.zst".toList, 7, 900⟩]
        sorted evicted kept :=
  sweep_evicts_shortest_prefix (fun _ => rfl) (by rfl) (by decide) 1000 10 500

end BscMempool.Telemetry
