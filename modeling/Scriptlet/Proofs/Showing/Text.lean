import Scriptlet.Heap.Inspect
import Scriptlet.Proofs.Showing.Literal

/-!
# Texts of literals

A value that a literal stands for is shown as that literal, however it is kept: no container is
found on the way to itself, and the containers on the way to a value are no more than there are.
-/

namespace Scriptlet

mutual

/-- A literal as the value that it stands for is shown. -/
def Expr.shown : Expr → List Char
  | .null _ => "null".toList
  | .bool _ b => (if b then "true" else "false").toList
  | .str _ s => (quoted s).toList
  | .array _ es => '[' :: [',', ' '].intercalate (Expr.shownAll es) ++ [']']
  | .hash _ entries => '{' :: [',', ' '].intercalate (Expr.shownEntries entries) ++ ['}']
  | _ => []

/-- Each of the literals as its value is shown. -/
def Expr.shownAll : List Expr → List (List Char)
  | [] => []
  | e :: es => e.shown :: Expr.shownAll es

/-- Each of the entries as its pair is shown. -/
def Expr.shownEntries : List (Expr × Expr) → List (List Char)
  | [] => []
  | (key, value) :: rest => (key.shown ++ [':', ' '] ++ value.shown) :: Expr.shownEntries rest

end

/-- Literals are shown each on its own. -/
theorem Expr.shownAll_eq (es : List Expr) :
  Expr.shownAll es = es.map Expr.shown
  := by
  induction es with
  | nil => rfl
  | cons e es ih => rw [Expr.shownAll, ih, List.map_cons]

/-- Entries are shown each with a colon between its key and its value. -/
theorem Expr.shownEntries_eq (entries : List (Expr × Expr)) :
  Expr.shownEntries entries
    = entries.map fun entry => entry.1.shown ++ [':', ' '] ++ entry.2.shown
  := by
  induction entries with
  | nil => rfl
  | cons entry entries ih => rw [Expr.shownEntries, ih, List.map_cons]

namespace Heap

/-- Whether the containers of `path` differ from one another, are not led to by `v`, and leave
enough of the fuel `n` for those that are led to. -/
structure Way (h : Heap) (n : Nat) (path : List Container) (v : Value) : Prop where
  nodup : path.Nodup
  there : ∀ c ∈ path, c ∈ h.containers
  outside : ∀ c ∈ path, ¬ h.Leads v c.value
  fuel : h.size < n + path.length

variable {h : Heap} {n : Nat} {path : List Container} {v w : Value}

/-- As long as there is room, there is fuel. -/
theorem Way.pos (hway : h.Way n path v) :
  0 < n
  := pos_of_nodup hway.nodup hway.there hway.fuel

/-- The way to what is found inside a container. -/
theorem Way.step {c : Container} (hway : h.Way (n + 1) path c.value) (hc : c ∈ h.containers)
    (hbuilt : h.Built c.value) :
  c ∉ path ∧ ∀ w, h.Holds c.value w → h.Way n (c :: path) w
  := by
  have hfresh : c ∉ path := fun hmem => hway.outside c hmem .refl
  refine ⟨hfresh, fun w hw => ⟨List.nodup_cons.mpr ⟨hfresh, hway.nodup⟩, ?_, ?_, ?_⟩⟩
  · exact List.forall_mem_cons.mpr ⟨hc, hway.there⟩
  · refine List.forall_mem_cons.mpr ⟨fun hback => ?_, fun d hd hlead => ?_⟩
    · exact hbuilt.not_transGen (.head' hw hback)
    · exact hway.outside d hd (.head hw hlead)
  · have := hway.fuel
    rw [List.length_cons]
    omega

/-- Related lists are mapped to the same list if related elements are mapped to the same. -/
theorem map_eq_map_of_forall₂ {α β γ : Type} {f : α → γ} {g : β → γ} {l : List α} {l' : List β}
    (hfg : List.Forall₂ (fun x y => g y = f x) l l') :
  l'.map g = l.map f
  := by
  induction hfg with
  | nil => rfl
  | cons hxy _ ih => rw [List.map_cons, List.map_cons, hxy, ih]

/-- An array is shown in brackets, with commas between its elements. -/
theorem toList_inspectWithin_array {i : Nat} (hi : .array i ∉ path) :
  (h.inspectWithin (n + 1) path (.array i)).toList
    = '[' :: [',', ' '].intercalate
      ((h.array i).toList.map fun x => (h.inspectWithin n (.array i :: path) x).toList) ++ [']']
  := by
  simp only [inspectWithin, hi, ↓reduceIte, String.toList_append, String.toList_intercalate,
    List.map_map]
  rfl

/-- A hash is shown in braces, with commas between its pairs. -/
theorem toList_inspectWithin_hash {i : Nat} (hi : .hash i ∉ path) :
  (h.inspectWithin (n + 1) path (.hash i)).toList
    = '{' :: [',', ' '].intercalate
      ((h.hash i).toList.map fun x => (h.inspectWithin n (.hash i :: path) x.1).toList ++ [':', ' ']
        ++ (h.inspectWithin n (.hash i :: path) x.2).toList) ++ ['}']
  := by
  simp only [inspectWithin, hi, ↓reduceIte, String.toList_append, String.toList_intercalate,
    List.map_map]
  refine congrArg (fun parts => '{' :: [',', ' '].intercalate parts ++ ['}'])
    (List.map_congr_left fun x _ => ?_)
  simp [String.toList_append]

/-- A value is shown as the literal that stands for it, inside containers that it does not lead
to. -/
theorem toList_inspectWithin {e : Expr} (he : e.Spells h v) (hway : h.Way n path v) :
  (h.inspectWithin n path v).toList = e.shown
  := by
  -- The induction is on the literal, and the way grows with each container that is entered.
  have hP : h.Hereditary fun e v => e.Spells h v → ∀ n path, h.Way n path v →
      (h.inspectWithin n path v).toList = e.shown := by
    constructor
    case null =>
      intro pos _ n path hway
      obtain ⟨n, rfl⟩ := Nat.exists_eq_add_one.mpr hway.pos
      rfl
    case bool =>
      intro pos b _ n path hway
      obtain ⟨n, rfl⟩ := Nat.exists_eq_add_one.mpr hway.pos
      rfl
    case str =>
      intro pos s _ _ n path hway
      obtain ⟨n, rfl⟩ := Nat.exists_eq_add_one.mpr hway.pos
      rfl
    case array =>
      intro pos es i hi hes he n path hway
      obtain ⟨n, rfl⟩ := Nat.exists_eq_add_one.mpr hway.pos
      have hmem : Container.array i ∈ h.containers := by simp [containers, hi]
      obtain ⟨hfresh, hstep⟩ := hway.step (c := .array i) hmem he.built
      rw [toList_inspectWithin_array hfresh, Expr.shown, Expr.shownAll_eq]
      have hparts := (forall₂_mem hes).imp fun e v hev =>
        hev.1.2 hev.1.1 n (.array i :: path) (hstep v (.element hev.2.2))
      rw [map_eq_map_of_forall₂ hparts]
    case hash =>
      intro pos entries i hi hentries he n path hway
      obtain ⟨n, rfl⟩ := Nat.exists_eq_add_one.mpr hway.pos
      have hmem : Container.hash i ∈ h.containers := by simp [containers, hi]
      obtain ⟨hfresh, hstep⟩ := hway.step (c := .hash i) hmem he.built
      rw [toList_inspectWithin_hash hfresh, Expr.shown, Expr.shownEntries_eq]
      have hparts : List.Forall₂ (fun (entry : Expr × Expr) (x : Value × Value) =>
          (h.inspectWithin n (.hash i :: path) x.1).toList ++ [':', ' ']
              ++ (h.inspectWithin n (.hash i :: path) x.2).toList
            = entry.1.shown ++ [':', ' '] ++ entry.2.shown) entries (h.hash i).toList := by
        refine (forall₂_mem hentries).imp ?_
        rintro entry x ⟨⟨⟨hkey, hkey'⟩, hvalue, hvalue'⟩, -, hx⟩
        rw [hkey' hkey n _ (hstep _ (.key hx)), hvalue' hvalue n _ (hstep _ (.value hx))]
      rw [map_eq_map_of_forall₂ hparts]
  exact hP.spells e he he n path hway

/-- A value is shown as the literal that stands for it. -/
theorem toList_inspect {e : Expr} (he : e.Spells h v) :
  (h.inspect v).toList = e.shown
  := by
  apply toList_inspectWithin he
  constructor
  · exact List.nodup_nil
  · exact List.forall_mem_nil _
  · exact List.forall_mem_nil _
  · simp

end Heap

end Scriptlet
