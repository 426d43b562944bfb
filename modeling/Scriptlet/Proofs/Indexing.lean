import Scriptlet.Proofs.Number.Exact
import Scriptlet.Proofs.Running.Moment

/-!
# Indices and slices

An index stands for the element at its exact value, counted from the end if it is negative, and
the bounds of a slice stand for their exact values, clipped to the sequence: the passage through
machine words changes no answer for sequences shorter than `2 ^ 63`.  Arrays and strings are
sequences alike, an array of its elements and a string of its characters.
-/

namespace Scriptlet

variable {σ : Type}

namespace Index

/-- The place, counted from the start, that an integer stands for in a sequence: a negative
integer counts from the end. -/
def offset (n : ℤ) (length : ℕ) : ℤ :=
  if n < 0 then length + n else n

/-- The place that an integer stands for, or the end of the sequence that is nearer to it. -/
def clamp (n : ℤ) (length : ℕ) : ℕ :=
  (max 0 (min (offset n length) length)).toNat

/-- The element that an integer stands for. -/
def element? {α : Type} (xs : List α) (n : ℤ) : Option α :=
  if 0 ≤ offset n xs.length then xs[(offset n xs.length).toNat]? else none

/-- Whether an argument stands for the place `b` as a bound of a sequence: the place `other` if it
is missing or `null`, and otherwise its value, clipped to the sequence. -/
inductive Resolves (length other : ℕ) : Option Value → ℕ → Prop where
  | missing : Resolves length other none other
  | null : Resolves length other (some .null) other
  | number {x : Float} {n : ℤ} (hx : rational? x = some (n : ℚ)) :
    Resolves length other (some (.num x)) (clamp n length)

variable {n : ℤ} {length : ℕ}

/-- The sum of a word and a length is a word. -/
theorem fromStart_mem_words (hlength : length < 2 ^ 63) (n : ℤ) :
  -2 ^ 63 ≤ fromStart n length ∧ fromStart n length < 2 ^ 63
  := by
  unfold fromStart word
  split <;> omega

/-- An index has a place exactly if its value lies in the sequence. -/
theorem place?_eq_some_iff (hlength : length < 2 ^ 63) {r : ℕ} :
  place? n length = some r ↔ offset n length = r ∧ r < length
  := by
  unfold place? fromStart word offset
  simp only [Option.ite_none_right_eq_some, Option.some_inj]
  split <;> split <;> omega

/-- In a sequence that is short enough a bound is the exact value, clipped to the sequence. -/
theorem bound_eq_clamp (hlength : length < 2 ^ 63) (n : ℤ) :
  bound n length = clamp n length
  := by
  unfold bound clamp fromStart word offset
  split <;> split <;> omega

/-- A bound is no further than the end of the sequence. -/
theorem bound_le (n : ℤ) (length : ℕ) :
  bound n length ≤ length
  := by
  unfold bound
  omega

/-- In a sequence that is short enough the element at a place is the one at the exact value. -/
theorem bind_place? {α : Type} {xs : List α} (hlength : xs.length < 2 ^ 63) (n : ℤ) :
  ((place? n xs.length).bind fun r => xs[r]?) = element? xs n
  := by
  rw [element?]
  split_ifs with hoffset
  · obtain hlt | hge := lt_or_ge (offset n xs.length).toNat xs.length
    · have hplace : place? n xs.length = some (offset n xs.length).toNat :=
        (place?_eq_some_iff hlength).mpr ⟨(Int.toNat_of_nonneg hoffset).symm, hlt⟩
      rw [hplace, Option.bind_some]
    · rw [List.getElem?_eq_none hge, Option.bind_eq_none_iff]
      intro r hr
      obtain ⟨hr, hlt⟩ := (place?_eq_some_iff hlength).mp hr
      omega
  · rw [Option.bind_eq_none_iff]
    intro r hr
    obtain ⟨hr, -⟩ := (place?_eq_some_iff hlength).mp hr
    omega

end Index

open Index

/-- A double has no integer exactly if its value is none. -/
theorem integerOf?_eq_none_iff {x : Float} :
  integerOf? x = none ↔ ∀ n : ℤ, rational? x ≠ some (n : ℚ)
  := by
  simp only [Option.eq_none_iff_forall_ne_some, ne_eq, integerOf?_eq_some_iff]

/-- The elements of an array or the characters of a string. -/
def Heap.sequence? (h : Heap) : Value → Option (List Value)
  | .array id => h.arrays[id]?.map Array.toList
  | .str s => some (s.toList.map fun c => .str c.toString)
  | _ => none

namespace Heap

variable {h : Heap} {v : Value} {vs : List Value}

/-- What has a sequence is an array that is there or a string. -/
theorem sequence?_cases (hv : h.sequence? v = some vs) :
  (∃ id, v = .array id ∧ id < h.arrays.size ∧ (h.array id).toList = vs)
    ∨ ∃ s : String, v = .str s ∧ s.toList.map (fun c => .str c.toString) = vs
  := by
  unfold sequence? at hv
  split at hv
  case h_1 id =>
    obtain ⟨elements, helements, rfl⟩ := Option.map_eq_some_iff.mp hv
    obtain ⟨hlt, hget⟩ := Array.getElem?_eq_some_iff.mp helements
    exact .inl ⟨id, rfl, hlt, by rw [array, Array.getD_eq_getD_getElem?, helements]; rfl⟩
  case h_2 s => exact .inr ⟨s, rfl, Option.some.inj hv⟩
  case h_3 => cases hv

/-- A new array has its elements for a sequence. -/
theorem sequence?_newArray (h : Heap) (elements : Array Value) :
  (h.newArray elements).2.sequence? (.array h.arrays.size) = some elements.toList
  := by
  simp [sequence?, newArray]

/-- A new array changes no sequence. -/
theorem sequence?_newArray_of_some (elements : Array Value) (hv : h.sequence? v = some vs) :
  (h.newArray elements).2.sequence? v = some vs
  := by
  obtain ⟨id, rfl, hlt, -⟩ | ⟨s, rfl, -⟩ := sequence?_cases hv
  · rw [← hv, sequence?, sequence?, newArray, Array.getElem?_push, if_neg hlt.ne]
  · exact hv

/-- A string is known by its characters. -/
theorem eq_of_sequence?_str {h' : Heap} {s : String} (hs : h.sequence? (.str s) = some vs)
    (hkind : v.kind = .string) (hv : h'.sequence? v = some vs) :
  v = .str s
  := by
  obtain ⟨id, rfl, -, -⟩ | ⟨t, rfl, ht⟩ := sequence?_cases hv
  · cases hkind
  · have hmap := ht.trans (Option.some.inj hs).symm
    have hinjective : Function.Injective fun c : Char => Value.str c.toString := by
      intro c d hcd
      exact String.singleton_inj.mp (Value.str.inj hcd)
    rw [String.toList_injective (List.map_injective_iff.mpr hinjective hmap)]

end Heap

namespace Run

variable {pos : Position} {m : Machine σ} {v w : Value} {vs ws : List Value} {length other : ℕ}

/-- An argument is read as a bound exactly if it stands for that place. -/
theorem boundOf_eq_some_iff (hlength : length < 2 ^ 63) {arg : Option Value} {b : ℕ} :
  boundOf arg length other = some b ↔ Resolves length other arg b
  := by
  constructor
  · intro h
    unfold boundOf at h
    split at h
    case h_1 =>
      cases h
      exact .missing
    case h_2 =>
      cases h
      exact .null
    case h_3 x =>
      obtain ⟨n, hn, rfl⟩ := Option.map_eq_some_iff.mp h
      rw [bound_eq_clamp hlength]
      exact .number (integerOf?_eq_some_iff.mp hn)
    case h_4 => cases h
  · intro h
    cases h with
    | missing => rfl
    | null => rfl
    | number hx =>
      rw [boundOf, integerOf?_eq_some_iff.mpr hx, Option.map_some, bound_eq_clamp hlength]

/-- What is read as a bound is no further than the end of the sequence. -/
theorem boundOf_le {arg : Option Value} {b : ℕ} (hother : other ≤ length)
    (h : boundOf arg length other = some b) :
  b ≤ length
  := by
  unfold boundOf at h
  split at h
  case h_1 =>
    cases h
    exact hother
  case h_2 =>
    cases h
    exact hother
  case h_3 =>
    obtain ⟨n, -, rfl⟩ := Option.map_eq_some_iff.mp h
    exact bound_le n length
  case h_4 => cases h

/-- The bounds of a slice are in order and in the sequence. -/
theorem le_of_bounds {args : List Value} {start stop : ℕ}
    (h : bounds args length = some (start, stop)) :
  start ≤ stop ∧ stop ≤ length
  := by
  simp only [bounds, Option.bind_eq_bind, Option.bind_eq_some_iff, Option.pure_def,
    Option.some_inj, Prod.mk.injEq] at h
  obtain ⟨a, ha, b, hb, rfl, rfl⟩ := h
  exact ⟨le_max_left a b, max_le (boundOf_le (Nat.zero_le _) ha) (boundOf_le le_rfl hb)⟩

/-- A slice with integral, null or missing bounds. -/
theorem bounds_eq_some {args : List Value} {start stop : ℕ} (hlength : length < 2 ^ 63)
    (hstart : Resolves length 0 args[0]? start) (hstop : Resolves length length args[1]? stop) :
  bounds (v :: args) length = some (start, max start stop)
  := by
  have h0 := (boundOf_eq_some_iff hlength).mpr hstart
  have h1 := (boundOf_eq_some_iff hlength).mpr hstop
  simp [bounds, h0, h1]

/-- There are no bounds if one of the arguments stands for no place. -/
theorem bounds_eq_none {args : List Value} (hlength : length < 2 ^ 63)
    (h : (∀ b, ¬ Resolves length 0 args[0]? b) ∨ ∀ b, ¬ Resolves length length args[1]? b) :
  bounds (v :: args) length = none
  := by
  simp only [← boundOf_eq_some_iff hlength, ← ne_eq, ← Option.eq_none_iff_forall_ne_some] at h
  obtain h | h := h
  · simp [bounds, h]
  · simp [bounds, h]

/-- A double that is an integer leads to the place of that integer. -/
theorem place_eq {x : Float} {n : ℤ} (hx : rational? x = some (n : ℚ)) (length : ℕ) :
  place pos x length m = .ok (place? n length) m
  := by
  rw [place, integerOf?_eq_some_iff.mpr hx]
  rfl

/-- A double that is no integer is reported. -/
theorem place_eq_error {x : Float} (hx : ∀ n : ℤ, rational? x ≠ some (n : ℚ)) (length : ℕ) :
  place pos x length m = .error (.fault (.placed (.fractionalIndex x) pos)) m
  := by
  rw [place, integerOf?_eq_none_iff.mpr hx]
  rfl

/-- An index into a sequence stands for a place. -/
theorem index_of_place {x : Float} {at? : Option ℕ} (hv : m.heap.sequence? v = some vs)
    (hplace : place pos x vs.length m = .ok at? m) :
  index pos v (.num x) m = .ok ((at?.bind fun r => vs[r]?).getD .null) m
  := by
  obtain ⟨id, rfl, -, rfl⟩ | ⟨s, rfl, rfl⟩ := Heap.sequence?_cases hv
  · rw [Array.length_toList] at hplace
    rw [index, heap_bind, Outcome.bind_apply, hplace]
    simp only [Outcome.andThen, Array.getElem?_toList]
    rfl
  · rw [List.length_map] at hplace
    rw [index, Outcome.bind_apply, hplace]
    simp only [Outcome.andThen, List.getElem?_map, Option.map_bind]
    rfl

/-- An index that is no integer is reported. -/
theorem index_eq_error (hv : m.heap.sequence? v = some vs) {x : Float}
    (hx : ∀ n : ℤ, rational? x ≠ some (n : ℚ)) :
  index pos v (.num x) m = .error (.fault (.placed (.fractionalIndex x) pos)) m
  := by
  obtain ⟨id, rfl, -, -⟩ | ⟨s, rfl, -⟩ := Heap.sequence?_cases hv
  · rw [index, heap_bind, Outcome.bind_apply, place_eq_error hx]
    rfl
  · rw [index, Outcome.bind_apply, place_eq_error hx]
    rfl

/-- A slice is of the kind of what it is taken from, and has the elements between the bounds. -/
theorem slice_eq (hv : m.heap.sequence? v = some vs) {args : List Value} {start stop : ℕ}
    (hbounds : bounds (v :: args) vs.length = some (start, stop)) :
  ∃ w m', slice (v :: args) m = .ok w m' ∧ w.kind = v.kind
    ∧ m'.heap.sequence? w = some (vs.extract start stop)
    ∧ ∀ u us, m.heap.sequence? u = some us → m'.heap.sequence? u = some us
  := by
  obtain ⟨id, rfl, -, rfl⟩ | ⟨s, rfl, rfl⟩ := Heap.sequence?_cases hv
  · rw [Array.length_toList] at hbounds
    refine ⟨.array m.heap.arrays.size,
      { m with heap := (m.heap.newArray ((m.heap.array id).extract start stop)).2 }, ?_, rfl, ?_,
      fun u us hu => Heap.sequence?_newArray_of_some _ hu⟩
    · rw [slice, heap_bind, hbounds]
      rfl
    · rw [← Array.toList_extract]
      exact Heap.sequence?_newArray m.heap _
  · rw [List.length_map] at hbounds
    refine ⟨.str (.ofList ((s.toList.take stop).drop start)), m, ?_, rfl, ?_, fun u us hu => hu⟩
    · rw [slice, hbounds]
      rfl
    · simp [Heap.sequence?, List.drop_take, List.extract_eq_take_drop]

/-- A slice with arguments that are no bounds is an error about its arguments. -/
theorem slice_eq_invalid (hv : m.heap.sequence? v = some vs) {args : List Value}
    (hbounds : bounds (v :: args) vs.length = none) :
  slice (v :: args) m = .ok .invalid m
  := by
  obtain ⟨id, rfl, -, rfl⟩ | ⟨s, rfl, rfl⟩ := Heap.sequence?_cases hv
  · rw [Array.length_toList] at hbounds
    rw [slice, heap_bind, hbounds]
    rfl
  · rw [List.length_map] at hbounds
    rw [slice, hbounds]
    rfl

/-- The sum of two arrays or two strings is of their kind, and has the elements of the one and then
those of the other. -/
theorem add_eq (pos : Position) (hkind : w.kind = v.kind) (hv : m.heap.sequence? v = some vs)
    (hw : m.heap.sequence? w = some ws) :
  ∃ u m', operate pos .add v w m = .ok u m' ∧ u.kind = v.kind
    ∧ m'.heap.sequence? u = some (vs ++ ws)
  := by
  obtain ⟨i, rfl, -, rfl⟩ | ⟨s, rfl, rfl⟩ := Heap.sequence?_cases hv
  · obtain ⟨j, rfl, -, rfl⟩ | ⟨t, rfl, -⟩ := Heap.sequence?_cases hw
    · refine ⟨.array m.heap.arrays.size,
        { m with heap := (m.heap.newArray (m.heap.array i ++ m.heap.array j)).2 }, rfl, rfl, ?_⟩
      rw [← Array.toList_append]
      exact Heap.sequence?_newArray m.heap _
    · cases hkind
  · obtain ⟨j, rfl, -, -⟩ | ⟨t, rfl, rfl⟩ := Heap.sequence?_cases hw
    · cases hkind
    · exact ⟨.str (s ++ t), m, rfl, rfl, by simp [Heap.sequence?]⟩

/-- A slice that would end before it starts is empty. -/
theorem extract_max {α : Type} (xs : List α) (start stop : ℕ) :
  xs.extract start (max start stop) = xs.extract start stop
  := by
  rw [List.extract_eq_take_drop, List.extract_eq_take_drop]
  congr 1
  omega

/-- The parts of a sequence in front of a place and behind it make up all of it. -/
theorem extract_append {α : Type} (xs : List α) {k : ℕ} :
  xs.extract 0 k ++ xs.extract k xs.length = xs
  := by
  rw [List.extract_eq_take_drop, List.extract_eq_take_drop, List.drop_zero, Nat.sub_zero,
    ← List.length_drop, List.take_length, List.take_append_drop]

/-- A slice with integral, null or missing bounds holds what lies between the places they stand
for. -/
theorem slice_between (hv : m.heap.sequence? v = some vs) (hlength : vs.length < 2 ^ 63)
    (args : List Value) {start stop : ℕ} (hstart : Resolves vs.length 0 args[0]? start)
    (hstop : Resolves vs.length vs.length args[1]? stop) :
  ∃ w m', slice (v :: args) m = .ok w m' ∧ w.kind = v.kind
    ∧ m'.heap.sequence? w = some (vs.extract start stop)
    ∧ ∀ u us, m.heap.sequence? u = some us → m'.heap.sequence? u = some us
  := by
  have h := slice_eq hv (bounds_eq_some (v := v) hlength hstart hstop)
  rwa [extract_max] at h

/-- A sequence is the sum of its two parts before and from any integer on. -/
theorem add_slices (pos : Position) (hv : m.heap.sequence? v = some vs)
    (hlength : vs.length < 2 ^ 63) {x zero : Float} {n : ℤ} (hx : rational? x = some (n : ℚ))
    (hzero : rational? zero = some 0) :
  ∃ a m₁ b m₂ c m₃, slice [v, .num zero, .num x] m = .ok a m₁ ∧ slice [v, .num x] m₁ = .ok b m₂
    ∧ operate pos .add a b m₂ = .ok c m₃ ∧ c.kind = v.kind ∧ m₃.heap.sequence? c = some vs
  := by
  have hclamp : clamp 0 vs.length = 0 := by simp [clamp, offset]
  obtain ⟨a, m₁, hslice, hkind, ha, hkeep⟩ :=
    slice_between hv hlength [.num zero, .num x] (.number (n := 0) hzero) (.number hx)
  obtain ⟨b, m₂, hslice', hkind', hb, hkeep'⟩ :=
    slice_between (hkeep v vs hv) hlength [.num x] (.number hx) .missing
  obtain ⟨c, m₃, hadd, hkind'', hc⟩ :=
    add_eq pos (hkind'.trans hkind.symm) (hkeep' a _ ha) hb
  refine ⟨a, m₁, b, m₂, c, m₃, hslice, hslice', hadd, hkind''.trans hkind, ?_⟩
  rw [hc, hclamp, extract_append]

/-- A bound that has a fraction, is infinite or is not a number is refused. -/
theorem slice_of_not_integral (hv : m.heap.sequence? v = some vs) (hlength : vs.length < 2 ^ 63)
    {x : Float} (hx : ∀ n : ℤ, rational? x ≠ some (n : ℚ)) {args : List Value}
    (hargs : args[0]? = some (.num x) ∨ args[1]? = some (.num x)) :
  slice (v :: args) m = .ok .invalid m
  := by
  have hnone : ∀ other b, ¬ Resolves vs.length other (some (.num x)) b := by
    intro other b h
    cases h with
    | number hn => exact hx _ hn
  refine slice_eq_invalid hv (bounds_eq_none hlength ?_)
  obtain hargs | hargs := hargs
  · exact .inl (hargs ▸ hnone 0)
  · exact .inr (hargs ▸ hnone vs.length)

/-- An index of integral value stands for the element at that value, counted from the end if it is
negative, and for none outside of the sequence; a slice with integral, null or missing bounds holds
what lies between them, clipped to the sequence, so that the slices before and from any integer on
add up to the sequence; and any other number is refused.  On the way every sum is a word and
every place lies in the sequence. -/
theorem indices_and_slices (pos : Position) (m : Machine σ) :
  (∀ (x : Float) (length : ℕ), length < 2 ^ 63 →
    (∀ n : ℤ, rational? x = some (n : ℚ) →
      (-2 ^ 63 ≤ fromStart n length ∧ fromStart n length < 2 ^ 63)
      ∧ ∃ at?, place pos x length m = .ok at? m
        ∧ ∀ r, at? = some r ↔ offset n length = r ∧ r < length)
    ∧ ((∀ n : ℤ, rational? x ≠ some (n : ℚ)) →
      place pos x length m = .error (.fault (.placed (.fractionalIndex x) pos)) m))
  ∧ ∀ v vs, m.heap.sequence? v = some vs → vs.length < 2 ^ 63 →
    (∀ (x : Float) (n : ℤ), rational? x = some (n : ℚ) →
      index pos v (.num x) m = .ok ((element? vs n).getD .null) m)
    ∧ (∀ args start stop, Resolves vs.length 0 args[0]? start →
      Resolves vs.length vs.length args[1]? stop →
        bounds (v :: args) vs.length = some (start, max start stop)
        ∧ max start stop ≤ vs.length
        ∧ ∃ w m', slice (v :: args) m = .ok w m' ∧ w.kind = v.kind
          ∧ m'.heap.sequence? w = some (vs.extract start stop))
    ∧ (∀ (x zero : Float) (n : ℤ), rational? x = some (n : ℚ) → rational? zero = some 0 →
      ∃ a m₁ b m₂ c m₃, slice [v, .num zero, .num x] m = .ok a m₁
        ∧ slice [v, .num x] m₁ = .ok b m₂ ∧ operate pos .add a b m₂ = .ok c m₃
        ∧ c.kind = v.kind ∧ m₃.heap.sequence? c = some vs ∧ (v.kind = .string → c = v))
    ∧ ∀ x : Float, (∀ n : ℤ, rational? x ≠ some (n : ℚ)) →
      index pos v (.num x) m = .error (.fault (.placed (.fractionalIndex x) pos)) m
      ∧ ∀ args : List Value, args[0]? = some (.num x) ∨ args[1]? = some (.num x) →
        slice (v :: args) m = .ok .invalid m
  := by
  refine ⟨fun x length hlength => ⟨fun n hx => ?_, fun hx => place_eq_error hx length⟩,
    fun v vs hv hlength => ⟨fun x n hx => ?_, fun args start stop hstart hstop => ?_,
      fun x zero n hx hzero => ?_, fun x hx => ?_⟩⟩
  · exact ⟨fromStart_mem_words hlength n, place? n length, place_eq hx length,
      fun r => place?_eq_some_iff hlength⟩
  · rw [index_of_place hv (place_eq hx vs.length), bind_place? hlength]
  · have hbounds := bounds_eq_some (v := v) hlength hstart hstop
    obtain ⟨w, m', hslice, hkind, hw, -⟩ := slice_between hv hlength args hstart hstop
    exact ⟨hbounds, (le_of_bounds hbounds).2, w, m', hslice, hkind, hw⟩
  · obtain ⟨a, m₁, b, m₂, c, m₃, ha, hb, hadd, hkind, hc⟩ := add_slices pos hv hlength hx hzero
    refine ⟨a, m₁, b, m₂, c, m₃, ha, hb, hadd, hkind, hc, fun hstring => ?_⟩
    obtain ⟨id, rfl, -, -⟩ | ⟨s, rfl, -⟩ := Heap.sequence?_cases hv
    · cases hstring
    · exact Heap.eq_of_sequence?_str hv hkind hc
  · exact ⟨index_eq_error hv hx, fun args hargs => slice_of_not_integral hv hlength hx hargs⟩

/-- Indices and slices of a text of three characters. -/
theorem indices_and_slices_abc :
  let m : Machine := .initial (.ofLines [])
  index .start (.str "abc") (.num (-1)) m = .ok (.str "c") m
    ∧ index .start (.str "abc") (.num 0.5) m
      = .error (.fault (.placed (.fractionalIndex 0.5) .start)) m
    ∧ (∃ at?, place .start (-4) 3 m = .ok at? m ∧ at? ≠ some 0)
    ∧ slice [.str "abc", .null, .num (1.0 / 0.0)] m = .ok .invalid m
    ∧ (∃ w m', slice [.str "abc", .num (-2), .null] m = .ok w m'
      ∧ m'.heap.sequence? w = some [.str "b", .str "c"])
    ∧ ∃ a m₁ b m₂ m₃, slice [.str "abc", .num 0, .num (-1e300)] m = .ok a m₁
      ∧ slice [.str "abc", .num (-1e300)] m₁ = .ok b m₂
      ∧ operate .start .add a b m₂ = .ok (.str "abc") m₃
  := by
  intro m
  have hhalf : ∀ n : ℤ, rational? 0.5 ≠ some (n : ℚ) :=
    integerOf?_eq_none_iff.mp (by decide +kernel)
  have hinf : ∀ n : ℤ, rational? (1.0 / 0.0) ≠ some (n : ℚ) :=
    integerOf?_eq_none_iff.mp (by decide +kernel)
  have hone : rational? (-1) = some ((-1 : ℤ) : ℚ) := integerOf?_eq_some_iff.mp (by decide +kernel)
  have htwo : rational? (-2) = some ((-2 : ℤ) : ℚ) := integerOf?_eq_some_iff.mp (by decide +kernel)
  have hfour : rational? (-4) = some ((-4 : ℤ) : ℚ) := integerOf?_eq_some_iff.mp (by decide +kernel)
  have hzero : rational? 0 = some ((0 : ℤ) : ℚ) := integerOf?_eq_some_iff.mp (by decide +kernel)
  obtain ⟨n, hn⟩ := Option.isSome_iff_exists.mp
    (by decide +kernel : (integerOf? (-1e300)).isSome = true)
  obtain ⟨hplace, hsequence⟩ := indices_and_slices .start m
  obtain ⟨hindex, hslice, hadd, hrefuse⟩ := hsequence (.str "abc") _ rfl (by decide)
  obtain ⟨-, at?, hat, hr⟩ := (hplace (-4) 3 (by decide)).1 (-4) hfour
  obtain ⟨-, -, w, m', hw, -, hwith⟩ := hslice [.num (-2), .null] _ _ (.number htwo) .null
  obtain ⟨a, m₁, b, m₂, c, m₃, ha, hb, hsum, -, -, hc⟩ :=
    hadd (-1e300) 0 n (integerOf?_eq_some_iff.mp hn) hzero
  refine ⟨hindex (-1) (-1) hone, (hrefuse 0.5 hhalf).1, ⟨at?, hat, ?_⟩,
    (hrefuse _ hinf).2 _ (.inr rfl), ⟨w, m', hw, hwith⟩, a, m₁, b, m₂, m₃, ha, hb, ?_⟩
  · intro h0
    exact absurd ((hr 0).mp h0).1 (by decide)
  · rw [hsum, hc rfl]

end Run

end Scriptlet
