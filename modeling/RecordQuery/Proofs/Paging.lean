import Mathlib.Data.Finset.Union
import Mathlib.Order.Interval.Finset.Nat
import RecordQuery.Proofs.Steps
import RecordQuery.Provider

namespace RecordQuery

namespace Page

def span (p : Page) (count : Nat) : Finset Nat :=
  Finset.Ico p.offset (min (p.offset + p.size) count)

variable {p : Page} {count row : Nat}

theorem of?_eq_ok_iff {number size : Int} :
    of? number size = .ok p ↔
      0 < number ∧ 0 < size ∧ (number - 1) * size ≤ Text.maxInt64 ∧
        p = ⟨number.toNat, size.toNat⟩ := by
  unfold of?
  split
  · next h => simp [Int.not_lt.2 h]
  · next hsize =>
    split
    · next h => simp [Int.not_lt.2 h]
    · next hnumber =>
      split
      · next h => simp [Int.not_le.2 h]
      · next hrange =>
        simp [Int.not_le.1 hsize, Int.not_le.1 hnumber, Int.not_lt.1 hrange, eq_comm]

theorem of?_eq_error {number size : Int} {e : Error} (h : of? number size = .error e) :
    size ≤ 0 ∨ number ≤ 0 ∨ Text.maxInt64 < (number - 1) * size := by
  by_contra hbounds
  simp only [not_or, Int.not_le, Int.not_lt] at hbounds
  obtain ⟨hsize, hnumber, hrange⟩ := hbounds
  rw [of?_eq_ok_iff.2 ⟨hnumber, hsize, hrange, rfl⟩] at h
  cases h

theorem cast_offset {number size : Nat} (hnumber : 0 < number) :
    (offset ⟨number, size⟩ : Int) = (number - 1) * size := by
  rw [offset, Int.natCast_mul, Int.natCast_sub hnumber, Int.natCast_one]

section

variable {number size : Int} (h : of? number size = .ok p)
include h

theorem one_le_number : 1 ≤ p.number := by
  obtain ⟨hnumber, -, -, rfl⟩ := of?_eq_ok_iff.1 h
  exact Int.pos_iff_toNat_pos.1 hnumber

theorem offset_of_ok : (p.offset : Int) = (number - 1) * size := by
  have hone := one_le_number h
  obtain ⟨hnumber, hsize, -, rfl⟩ := of?_eq_ok_iff.1 h
  rw [cast_offset hone, Int.toNat_of_nonneg hnumber.le, Int.toNat_of_nonneg hsize.le]

theorem offset_le : p.offset ≤ Text.maxInt64 := by
  rw [offset_of_ok h]
  exact (of?_eq_ok_iff.1 h).2.2.1

end

theorem le_pages_iff {number : Nat} (hnumber : 0 < number) (hsize : 0 < p.size) :
    number ≤ p.pages count ↔ offset ⟨number, p.size⟩ < count := by
  have hend : number * p.size = offset ⟨number, p.size⟩ + p.size := by
    obtain ⟨before, rfl⟩ := Nat.exists_eq_add_one.2 hnumber
    exact Nat.succ_mul before p.size
  rw [pages, Nat.le_div_iff_mul_le hsize, hend]
  omega

theorem mem_span_iff {number size : Nat} (hnumber : 0 < number) (hsize : 0 < size) :
    row ∈ span ⟨number, size⟩ count ↔ row < count ∧ row / size + 1 = number := by
  have hpage : row / size = number - 1 ↔
      offset ⟨number, size⟩ ≤ row ∧ row < offset ⟨number, size⟩ + size := by
    change _ ↔ (number - 1) * size ≤ row ∧ row < (number - 1) * size + size
    rw [Nat.div_eq_iff hsize]
    omega
  have hnext : row / size + 1 = number ↔ row / size = number - 1 := by omega
  rw [hnext, hpage, span, Finset.mem_Ico, Nat.lt_min]
  exact ⟨fun ⟨hstart, hend, hrow⟩ => ⟨hrow, hstart, hend⟩,
    fun ⟨hrow, hstart, hend⟩ => ⟨hstart, hend, hrow⟩⟩

/-- The pages of a size, up to the last one, part the rows among them. -/
structure Tiles (size count last : Nat) : Prop where
  accepted : ∀ number, 1 ≤ number → number ≤ last → of? number size = .ok ⟨number, size⟩
  filled : ∀ number, 1 ≤ number → number ≤ last → (span ⟨number, size⟩ count).Nonempty
  apart : ∀ number other, 1 ≤ number → 1 ≤ other → number ≠ other →
    Disjoint (span ⟨number, size⟩ count) (span ⟨other, size⟩ count)
  covering : (Finset.Icc 1 last).biUnion (fun number => span ⟨number, size⟩ count)
    = Finset.range count
  beyond : ∀ (number : Int) p, of? number size = .ok p → last < number → count ≤ p.offset

theorem tiles (hsize : 0 < p.size) (hcount : count ≤ Text.maxInt64) :
    Tiles p.size count (p.pages count) where
  accepted number hnumber hlast := by
    have hstart := (le_pages_iff hnumber hsize).1 hlast
    refine of?_eq_ok_iff.2 ⟨by omega, by omega, ?_, by simp⟩
    rw [← cast_offset hnumber]
    omega
  filled number hnumber hlast := by
    have hstart := (le_pages_iff hnumber hsize).1 hlast
    have hend := Nat.lt_add_of_pos_right (n := offset ⟨number, p.size⟩) hsize
    exact ⟨_, Finset.mem_Ico.2 ⟨le_rfl, Nat.lt_min.2 ⟨hend, hstart⟩⟩⟩
  apart number other hnumber hother hne := by
    refine Finset.disjoint_left.2 fun row hrow hrow' => hne ?_
    have hpage := ((mem_span_iff hnumber hsize).1 hrow).2
    have hpage' := ((mem_span_iff hother hsize).1 hrow').2
    exact hpage.symm.trans hpage'
  covering := by
    ext row
    simp only [Finset.mem_biUnion, Finset.mem_Icc, Finset.mem_range]
    constructor
    · rintro ⟨number, ⟨hnumber, -⟩, hrow⟩
      exact ((mem_span_iff hnumber hsize).1 hrow).1
    · intro hrow
      have hpos : 0 < row / p.size + 1 := Nat.succ_pos _
      have hstart : offset ⟨row / p.size + 1, p.size⟩ < count :=
        Nat.lt_of_le_of_lt (Nat.div_mul_le_self row p.size) hrow
      exact ⟨row / p.size + 1, ⟨hpos, (le_pages_iff hpos hsize).2 hstart⟩,
        (mem_span_iff hpos hsize).2 ⟨hrow, rfl⟩⟩
  beyond number q hq hlast := by
    obtain ⟨hnumber, -, -, rfl⟩ := of?_eq_ok_iff.1 hq
    rw [Int.toNat_natCast]
    by_contra hstart
    have hle := (le_pages_iff (p := p) (by omega) hsize).2 (Nat.not_le.1 hstart)
    omega

theorem offset_words {number size : Int64} (h : of? number.toInt size.toInt = .ok p) :
    ((number.toUInt64 - 1) * size.toUInt64).toNat = p.offset := by
  obtain ⟨hnumber, hsize, -, hpage⟩ := of?_eq_ok_iff.1 h
  have hword (x : Int64) (hx : 0 < x.toInt) : x.toUInt64.toNat = x.toInt.toNat :=
    Int64.toNat_toUInt64_of_le (Int64.le_iff_toInt_le.2 hx.le)
  have hnumber : number.toUInt64.toNat = p.number := by rw [hword number hnumber, hpage]
  have hsize : size.toUInt64.toNat = p.size := by rw [hword size hsize, hpage]
  have hone : (1 : UInt64) ≤ number.toUInt64 := by
    rw [UInt64.le_iff_toNat_le, hnumber]
    exact one_le_number h
  have hmax : Text.maxInt64 < 2 ^ 64 := by decide
  have hoffset := offset_le h
  rw [UInt64.toNat_mul, UInt64.toNat_sub_of_le _ _ hone, hnumber, hsize]
  exact Nat.mod_eq_of_lt (by change p.offset < 2 ^ 64; omega)

end Page

theorem Double.toInt64_le (x : Double) : x.toInt64 ≤ Text.maxInt64 := by
  unfold toInt64 Text.maxInt64
  split <;> omega

theorem Record.int64?_le {key : String} {r : Record} {n : Int} (h : r.int64? key = some n) :
    n ≤ Text.maxInt64 := by
  unfold int64? at h
  split at h
  · next m _ =>
    obtain rfl := Option.some.inj h
    split
    · next hm => exact hm
    · exact Double.toInt64_le _
  · obtain rfl := Option.some.inj h
    exact Double.toInt64_le _
  · exact (Text.int64?_eq_some_iff.1 h).2.2
  · cases h

theorem Provider.fetchCount_le {backend : Backend} {statement : Statement} {s t : Session}
    {count : Nat} (h : fetchCount backend statement s = (.ok count, t)) :
    count ≤ Text.maxInt64 := by
  obtain ⟨rows, u, -, hcount⟩ := Steps.bind_ok h
  cases hn : rows.head?.bind (Record.int64? QueryPair.countColumn) with
  | none =>
    rw [hn] at hcount
    cases hcount
  | some n =>
    rw [hn] at hcount
    obtain ⟨row, -, hrow⟩ := Option.bind_eq_some_iff.1 hn
    have hle := Record.int64?_le hrow
    have hmax : 0 ≤ Text.maxInt64 := by decide
    have hcount : n.toNat = count := Except.ok.inj (congrArg Prod.fst hcount)
    omega

/-- A pair of 64-bit integers that is no page is not positive or starts out of range. The offset of
a page is in range, and words compute it. The pages of a size part the rows of a count that a
database can answer. -/
theorem pages_part_rows :
    (∀ number size : Int64,
      (∀ e, Page.of? number.toInt size.toInt = .error e →
        size.toInt ≤ 0 ∨ number.toInt ≤ 0 ∨ 2 ^ 63 - 1 < (number.toInt - 1) * size.toInt) ∧
      ∀ p, Page.of? number.toInt size.toInt = .ok p →
        (p.offset : Int) = (number.toInt - 1) * size.toInt ∧ p.offset ≤ 2 ^ 63 - 1 ∧
        1 ≤ p.number ∧ ((number.toUInt64 - 1) * size.toUInt64).toNat = p.offset) ∧
    (∀ backend statement s t count,
      Provider.fetchCount backend statement s = (.ok count, t) → count ≤ 2 ^ 63 - 1) ∧
    ∀ (p : Page) (count : Nat), 1 ≤ p.size → count ≤ 2 ^ 63 - 1 →
      Page.Tiles p.size count (p.pages count) := by
  have hmax : Text.maxInt64 = 2 ^ 63 - 1 := by decide
  refine ⟨fun number size => ⟨fun e he => ?_, fun p hp => ?_⟩, fun _ _ _ _ count hcount => ?_,
    fun p count hsize hcount => Page.tiles hsize (by omega)⟩
  · rw [← hmax]
    exact Page.of?_eq_error he
  · have hle := Page.offset_le hp
    exact ⟨Page.offset_of_ok hp, by omega, Page.one_le_number hp, Page.offset_words hp⟩
  · have hle := Provider.fetchCount_le hcount
    omega

theorem pages_part_rows_eleven :
    Page.of? 2 Int64.maxValue.toInt = .ok ⟨2, 9223372036854775807⟩ ∧
    Page.offset ⟨2, 9223372036854775807⟩ ≤ 2 ^ 63 - 1 ∧
    (∃ e, Page.of? 3 Int64.maxValue.toInt = .error e) ∧
    2 ^ 63 - 1 < (3 - 1) * Int64.maxValue.toInt ∧
    (Provider.fetchCount (fun _ => .ok [[("count", .int 11)]]) ⟨"", []⟩ ⟨[], 0, 0, 0, []⟩).1
      = .ok 11 ∧
    11 ≤ 2 ^ 63 - 1 ∧ Page.Tiles 5 11 3 := by
  obtain ⟨hpairs, hcounts, htiles⟩ := pages_part_rows
  have hpage : Page.of? 2 Int64.maxValue.toInt = .ok ⟨2, 9223372036854775807⟩ := rfl
  have hfar : Page.of? 3 Int64.maxValue.toInt
      = .error (.invalidPage (.outOfRange 3 9223372036854775807)) := rfl
  have hcount : Provider.fetchCount (fun _ => .ok [[("count", .int 11)]]) ⟨"", []⟩
      ⟨[], 0, 0, 0, []⟩ = (.ok 11, ⟨[], 0, 0, 0, [⟨"", []⟩]⟩) := rfl
  have hrange := hcounts _ _ _ _ 11 hcount
  refine ⟨hpage, ((hpairs 2 Int64.maxValue).2 _ hpage).2.1, ⟨_, hfar⟩, ?_,
    congrArg Prod.fst hcount, hrange, htiles ⟨1, 5⟩ 11 (by decide) hrange⟩
  rcases (hpairs 3 Int64.maxValue).1 _ hfar with hsize | hnumber | hpast
  · exact absurd hsize (by decide)
  · exact absurd hnumber (by decide)
  · exact hpast

end RecordQuery
