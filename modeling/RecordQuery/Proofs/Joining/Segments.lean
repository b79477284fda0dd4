import Mathlib.Data.List.DropRight
import RecordQuery.Proofs.Joining.Destination
import RecordQuery.Proofs.Text.Pieces

namespace RecordQuery

namespace Path

variable {path path' segment : String} {names : List String}

theorem intercalate_segments (path : String) : ".".intercalate (segments path) = path := by
  have hdot : ".".toList = ['.'] := rfl
  apply String.toList_inj.1
  rw [String.toList_intercalate, hdot]
  simp [segments, Text.split]

theorem not_mem_segment (h : segment ∈ segments path) : '.' ∉ segment.toList := by
  obtain ⟨piece, hpiece, rfl⟩ := List.mem_map.1 h
  simpa using Text.not_mem_of_mem_splitOn hpiece

theorem not_mem_of_segments {xs ys : List String} (h : segments path = xs ++ ys) :
    ∀ segment ∈ xs, '.' ∉ segment.toList := by
  intro segment hsegment
  refine not_mem_segment (?_ : segment ∈ segments path)
  rw [h]
  exact List.mem_append_left ys hsegment

theorem segments_ne_nil (path : String) : segments path ≠ [] := by
  simp [segments, Text.split]

theorem segments_append (path path' : String) :
    segments (path ++ "." ++ path') = segments path ++ segments path' := by
  unfold segments Text.split
  simp only [String.toList_append]
  have hdot : ".".toList = ['.'] := rfl
  rw [hdot, List.append_assoc, List.singleton_append, List.splitOn_append_cons_self,
    List.map_append]

/-- The segments of a path that others go on from; the empty one stands for the root. -/
def crossings (base : String) : List String := if base.isEmpty then [] else segments base

theorem segments_under (base path : String) :
    segments (under base path) = crossings base ++ segments path := by
  unfold under crossings
  split
  · rfl
  · exact segments_append base path

theorem crossings_under (base path : String) : crossings base <+: crossings (under base path) := by
  by_cases hbase : base.isEmpty = true
  · simp [crossings, hbase]
  · have hunder : (under base path).isEmpty = false := by
      simp [under, hbase]
    rw [crossings, crossings, if_neg hbase, if_neg (by simp [hunder]), segments_under, crossings,
      if_neg hbase]
    exact List.prefix_append _ _

theorem segments_key (base : String) :
    segments (under base idSegment) = crossings base ++ [idSegment] := by
  have hkey : segments idSegment = [idSegment] := by decide +kernel
  rw [segments_under, hkey]

theorem segments_intercalate (hne : names ≠ []) (h : ∀ name ∈ names, '.' ∉ name.toList) :
    segments (".".intercalate names) = names :=
  Text.split_intercalate rfl hne h

theorem toList_bare (segment : String) :
    (bare segment).toList = segment.toList.rdropWhile isMarker :=
  String.toList_ofList

theorem bare_bare (segment : String) : bare (bare segment) = bare segment := by
  apply String.toList_inj.1
  rw [toList_bare, toList_bare, List.rdropWhile_idempotent]

theorem not_mem_bare (h : '.' ∉ segment.toList) : '.' ∉ (bare segment).toList := by
  rw [toList_bare]
  exact fun hmem => h ((List.rdropWhile_prefix _ _).subset hmem)

theorem bare_of_normalize (h : normalize path' = normalize path) :
    (segments path').map bare = (segments path).map bare := by
  have hread : ∀ p, segments (normalize p) = (segments p).map bare := by
    intro p
    apply segments_intercalate (by simpa using segments_ne_nil p)
    intro name hname
    obtain ⟨segment, hsegment, rfl⟩ := List.mem_map.1 hname
    exact not_mem_bare (not_mem_segment hsegment)
  rw [← hread path', h, hread path]

theorem foldl_under_cons {base : String} (hbase : base ≠ "") (names : List String) :
    names.foldl under base = ".".intercalate (base :: names) := by
  induction names generalizing base with
  | nil => simp
  | cons name names ih =>
    have hunder : under base name = base ++ "." ++ name := by simp [under, hbase]
    rw [List.foldl_cons, hunder, ih (by simp)]
    cases names with
    | nil => simp
    | cons next names => simp [String.intercalate_cons_cons, String.append_assoc]

theorem foldl_under (h : ∀ name ∈ names, name ≠ "") :
    names.foldl under "" = ".".intercalate names := by
  cases names with
  | nil => simp
  | cons name names => exact foldl_under_cons (h name List.mem_cons_self) names

end Path

theorem Destination.not_mem_crossed (d : Destination) (path : String) :
    ∀ name ∈ d.crossed path, '.' ∉ name.toList := by
  intro name hname
  refine Path.not_mem_segment (?_ : name ∈ Path.segments path)
  unfold crossed at hname
  split at hname
  · exact hname
  · exact List.dropLast_subset _ hname

end RecordQuery
