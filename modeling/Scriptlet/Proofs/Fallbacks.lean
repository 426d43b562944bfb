import Scriptlet.Proofs.Cleanness
import Scriptlet.Proofs.Lexing.Spelling
import Scriptlet.Proofs.Running.Proper

/-!
# Fallbacks that are never taken

Parsed trees are proper: parameters differ, decorators are put on declarations, names are deleted,
functions that are bound to names have them, and number literals are written with digits.  So
neither the parser nor the evaluator ever does what it would do otherwise, and a call binds as many
names as it is given arguments.
-/

namespace Scriptlet

variable {σ : Type}

/-! ### Number literals -/

/-- Whether a text is made of digits, of at least one. -/
def IsNumeral (x : String) : Prop :=
  x.toList ≠ [] ∧ ∀ c ∈ x.toList, c.isDigit = true

namespace Source

/-- Whether a text has a number token at `pos` that is made of digits, and they write `value`. -/
def Writes (text : String) (pos : Position) (value : Nat) : Prop :=
  ∃ t ∈ tokens text, t.kind = .number ∧ t.position = pos ∧ IsNumeral t.text
    ∧ value = Numeral.value t.text.toList

/-- A character that is a token of its own is no number. -/
theorem single_ne_number (c : Char) :
  single c ≠ .number
  := by
  unfold single
  split
  all_goals rintro ⟨⟩

/-- No token of two characters is a number. -/
theorem double?_ne_number {c d : Char} {kind : TokenKind} (h : double? c d = some kind) :
  kind ≠ .number
  := by
  unfold double? at h
  split at h
  all_goals
    cases h
    all_goals rintro ⟨⟩

/-- Only a word that starts with a digit is a number. -/
theorem isNumeral_lexeme {c : Char} {cs : List Char} (h : (lexeme c cs).kind = .number) :
  IsNumeral (lexeme c cs).text
  := by
  unfold lexeme at h ⊢
  split at h
  next => exact absurd h (TokenKind.ofWord_ne (by decide) (by decide) _)
  next hstart =>
    rw [if_neg hstart]
    split at h
    next hdigit =>
      rw [if_pos hdigit]
      refine ⟨by simp, ?_⟩
      rw [String.toList_ofList]
      exact List.forall_mem_cons.mpr ⟨hdigit, fun d hd =>
        List.all_eq_true.mp List.all_takeWhile d hd⟩
    next =>
      split at h
      next =>
        split at h
        all_goals cases h
      next =>
        split at h
        next d kind hfound =>
          obtain ⟨d', -, hmap⟩ := Option.bind_eq_some_iff.mp hfound
          obtain ⟨kind', hdouble, heq⟩ := Option.map_eq_some_iff.mp hmap
          cases heq
          exact absurd h (double?_ne_number hdouble)
        next => exact absurd h (single_ne_number c)

/-- Every number token that is read is made of digits. -/
theorem isNumeral_scan (p : Position) (k : Nat) (cs : List Char) :
  ∀ t ∈ scan p k cs, t.kind = .number → IsNumeral t.text
  := by
  apply scan_induction (P := fun l => ∀ t ∈ l, t.kind = .number → IsNumeral t.text)
  · exact List.forall_mem_nil _
  · intro p p' x l _ hl
    refine List.forall_mem_cons.mpr ⟨?_, List.forall_mem_cons.mpr ⟨?_, hl⟩⟩
    all_goals rintro ⟨⟩
  · intro p p' c cs _ hl
    exact List.forall_mem_cons.mpr ⟨isNumeral_lexeme, hl⟩

/-- The number tokens of a text are made of digits. -/
theorem isNumeral_tokens {text : String} {t : Token} (ht : t ∈ tokens text)
    (hkind : t.kind = .number) :
  IsNumeral t.text
  := isNumeral_scan _ _ _ t ht hkind

end Source

/-- The trees that are kept of a text are proper, and their number literals stand where the text has
numbers of the same value. -/
theorem Program.everywhere_writes (text file : String) :
  ∀ s ∈ (Program.parse text file).1.statements, s.Everywhere (.proper (Source.Writes text))
  := by
  apply Stmt.allEverywhere_iff.mp
  apply everywhere_parse
  intro t ht hkind
  exact ⟨t, ht, hkind, rfl, Source.isNumeral_tokens ht hkind, rfl⟩

/-! ### Fallbacks of the parser -/

namespace Parse

variable (finish : Position)

/-- How tightly a token between two operands binds. -/
def levelOf? : TokenKind → Option Nat
  | .assign => some assignLevel
  | .and | .or => some 1
  | .equal | .notEqual => some 2
  | .less | .lessEqual | .greater | .greaterEqual | .inWord => some 3
  | .plus | .minus => some 4
  | .asterisk | .slash | .percent => some productLevel
  | _ => none

/-- An operator that is known to stand between two operands, and what is done if it is none. -/
def operator (missing : Parse BinaryOp) : Parse BinaryOp := do
  match BinaryOp.ofToken? (← kind) with
  | some op =>
    advance
    return op
  | none => missing

/-- The operators that follow their left operand, where levels are looked up before operators. -/
def binaryRestOr (missing : Parse BinaryOp) (n level : Nat) (left : Expr) : Parse Expr := do
  let kind ← kind
  match levelOf? kind with
  | none => return left
  | some found =>
    if found < level then
      return left
    else if kind = .assign then
      assignment finish n level left
    else
      let pos ← here finish
      let op ← operator missing
      let right ← binary finish n (min (found + 1) productLevel)
      binaryRest finish n level (.binary pos op left right)

/-- An operand, where `read` reads the digits of a number and `reject` is done if it cannot. -/
def primaryOr (read : String → Option Nat) (reject : String → Parse Expr) (n : Nat) :
    Parse Expr := do
  let pos ← here finish
  if (← kind) = .number then
    let digits ← word
    advance
    match read digits with
    | some value => return .num pos value
    | none => reject digits
  else
    primary finish n

/-- A token between operands has a level if it is an operator, and then that of the operator. -/
theorem levelOf?_eq {kind : TokenKind} (hkind : kind ≠ .assign) :
  levelOf? kind = (BinaryOp.ofToken? kind).map BinaryOp.level
  := by
  cases kind
  case assign => contradiction
  all_goals rfl

/-- Where there is an operator, what is done if there is none does not matter. -/
theorem operator_bind {α : Type} {missing : Parse BinaryOp} {op : BinaryOp} {l : List Token}
    (hop : BinaryOp.ofToken? (kindOf l) = some op) (f : BinaryOp → Parse α) :
  (operator missing >>= f) l = f op l.tail
  := by
  rw [operator, bind_assoc, kind_bind, hop]
  rfl

/-- No operator is missing where a level has been found. -/
theorem binaryRestOr_eq (missing : Parse BinaryOp) (n level : Nat) (left : Expr) :
  binaryRestOr finish missing n level left = binaryRest finish (n + 1) level left
  := by
  funext l
  rw [binaryRestOr, binaryRest, kind_bind, kind_bind]
  by_cases hassign : kindOf l = .assign
  · rw [hassign]
    rfl
  · rw [levelOf?_eq hassign, if_neg hassign]
    cases hop : BinaryOp.ofToken? (kindOf l) with
    | none => rfl
    | some op =>
        dsimp only [Option.map_some]
        split
        · rfl
        · rw [here_bind, here_bind, operator_bind hop]
          rfl

/-- No number is rejected by what reads all rows of digits. -/
theorem primaryOr_eq {text : String} {l : List Token} (hl : l <:+ Source.tokens text)
    {read : String → Option Nat}
    (hread : ∀ x, IsNumeral x → read x = some (Numeral.value x.toList))
    (reject : String → Parse Expr) (n : Nat) :
  primaryOr finish read reject (n + 1) l = primary finish (n + 1) l
  := by
  rw [primaryOr, here_bind, kind_bind]
  by_cases hkind : kindOf l = .number
  · rw [if_pos hkind, primary, here_bind, kind_bind, hkind]
    rcases l with _ | ⟨t, ts⟩
    · cases hkind
    · have hdigits := Source.isNumeral_tokens (hl.mem List.mem_cons_self) hkind
      rw [word_bind, advance_bind, wordOf_cons, hread _ hdigits]
      rfl
  · rw [if_neg hkind]

end Parse

/-! ### Wordings -/

/-- Whether two texts have `n` characters and differ in the first `n` of them. -/
def Diverge (n : Nat) (a b : String) : Prop :=
  n ≤ a.toList.length ∧ n ≤ b.toList.length ∧ a.toList.take n ≠ b.toList.take n

instance (n : Nat) (a b : String) : Decidable (Diverge n a b) :=
  inferInstanceAs (Decidable (_ ∧ _ ∧ _))

namespace Diverge

variable {n : Nat} {a b : String}

/-- Texts that differ in their first characters differ. -/
theorem ne (h : Diverge n a b) :
  a ≠ b
  := by
  rintro rfl
  exact h.2.2 rfl

/-- What follows one of the texts makes no difference. -/
theorem append (h : Diverge n a b) (t : String) :
  Diverge n (a ++ t) b
  := by
  obtain ⟨ha, hb, hne⟩ := h
  refine ⟨?_, hb, ?_⟩
  · rw [String.toList_append, List.length_append]
    exact Nat.le_add_right_of_le ha
  · rwa [String.toList_append, List.take_append_of_le_length ha]

/-- If one text differs from another in its first characters, then the other does from it. -/
theorem symm (h : Diverge n a b) :
  Diverge n b a
  := ⟨h.2.1, h.1, h.2.2.symm⟩

/-- What follows the texts makes no difference. -/
theorem ne_append (h : Diverge n a b) (t : String) :
  a ≠ b ++ t
  := (h.symm.append t).symm.ne

end Diverge

/-- What is called for is never said to be an operator. -/
theorem Expectation.diverge_text (what : Expectation) :
  Diverge 1 what.text "operator but found"
  := by
  cases what
  case conditionStart word | conditionEnd word =>
    exact .append (.append (by decide) _) _
  all_goals decide

/-- No expectation of the parser is worded as the fallback for operators. -/
theorem Expectation.expected_ne (what : Expectation) (t u : String) :
  "Expected " ++ what.text ++ t ≠ "Expected operator but found" ++ u
  := by
  intro heq
  have hsplit : "Expected operator but found" = "Expected " ++ "operator but found" := rfl
  have hlists : "Expected ".toList ++ (what.text ++ t).toList
      = "Expected ".toList ++ ("operator but found" ++ u).toList := by
    rw [← String.toList_append, ← String.toList_append, ← String.append_assoc,
      ← String.append_assoc, ← hsplit, heq]
  exact (what.diverge_text.append t).ne_append u
    (String.toList_inj.mp (List.append_cancel_left hlists))

/-- No error is worded like one about a missing operator or about a number. -/
theorem SyntaxFlaw.message_ne (flaw : SyntaxFlaw) (rest : String) :
  flaw.message ≠ "Expected operator but found" ++ rest
    ∧ flaw.message ≠ "Invalid number literal" ++ rest
  := by
  cases flaw
  case expected what found =>
    have hnumber (t : String) :
        Diverge 1 ("Expected " ++ what.text ++ t) "Invalid number literal" :=
      .append (.append (by decide) _) _
    cases found with
    | none => exact ⟨what.expected_ne _ _, (hnumber _).ne_append _⟩
    | some found =>
        have heq : message (expected what (some found))
            = "Expected " ++ what.text ++ (", found '" ++ (found ++ "'")) := by
          rw [← String.append_assoc, ← String.append_assoc]
          rfl
        rw [heq]
        exact ⟨what.expected_ne _ _, (hnumber _).ne_append _⟩
  case duplicateParam | illegalCharacter | unexpectedToken =>
    exact ⟨Diverge.ne_append (n := 10) (.append (.append (by decide) _) _) _,
      Diverge.ne_append (n := 10) (.append (.append (by decide) _) _) _⟩
  all_goals
    exact ⟨Diverge.ne_append (n := 10) (by decide) _, Diverge.ne_append (n := 10) (by decide) _⟩

/-- No syntax error is worded like the fault about what a decorator is put on. -/
theorem SyntaxFlaw.message_ne_undecoratable (flaw : SyntaxFlaw) :
  flaw.message ≠ Cause.undecoratable.message
  := by
  cases flaw
  case expected what found =>
    cases found with
    | none => exact Diverge.ne (n := 2) (.append (.append (by decide) _) _)
    | some found =>
        exact Diverge.ne (n := 2) (.append (.append (.append (.append (by decide) _) _) _) _)
  case duplicateParam | illegalCharacter | unexpectedToken =>
    exact Diverge.ne (n := 2) (.append (.append (by decide) _) _)
  all_goals
    decide

/-- A fault with another cause is worded so only if the program says so itself. -/
theorem Fault.Ordinary.thrown {f : Fault} (hf : f.Ordinary)
    (hmessage : f.message = Cause.undecoratable.message) :
  f.cause = .thrown f.message
  := by
  unfold Fault.Ordinary at hf
  unfold Fault.message at hmessage ⊢
  generalize f.cause = cause at hf hmessage ⊢
  -- The first two characters tell the wordings apart, and are in the fixed part of each.
  have key {a : String} (h : Diverge 2 a Cause.undecoratable.message) {p : Prop}
      (heq : a = Cause.undecoratable.message) : p := absurd heq h.ne
  cases cause
  case undecoratable => contradiction
  case thrown text => rfl
  case malformed flaw => exact absurd hmessage flaw.message_ne_undecoratable
  case arity name wanted given =>
    refine key ?_ hmessage
    cases name
    · exact .append (.append (.append (.append (by decide) _) _) _) _
    · exact .append (.append (.append (.append (.append (.append (by decide) _) _) _) _) _) _
  case invalidArguments | divisionByZero | evalRefused | hostRefused =>
    exact key (by decide) hmessage
  case undefinedName | undeclaredName | depthExceeded | budgetExceeded =>
    exact key (.append (.append (by decide) _) _) hmessage
  case notIndexable => exact key (.append (.append (.append (by decide) _) _) _) hmessage
  case typeMismatch =>
    exact key (.append (.append (.append (.append (.append (by decide) _) _) _) _) _) hmessage
  all_goals exact key (.append (by decide) _) hmessage

/-! ### Calls -/

namespace Bindings

/-- A new name is bound behind the others. -/
theorem set_eq_append {b : Bindings} {name : String} (hname : name ∉ b.map Prod.fst) (v : Value) :
  b.set name v = b ++ [(name, v)]
  := by
  induction b with
  | nil => rfl
  | cons p rest ih =>
      rw [List.map_cons, List.mem_cons, not_or] at hname
      rw [set, if_neg hname.1, ih hname.2]
      rfl

/-- Names that differ are bound one behind the other, each to its own value. -/
theorem foldl_set {b : Bindings} {pairs : List (String × Value)}
    (hnames : ((b ++ pairs).map Prod.fst).Nodup) :
  pairs.foldl (fun b p => b.set p.1 p.2) b = b ++ pairs
  := by
  induction pairs generalizing b with
  | nil => rw [List.foldl_nil, List.append_nil]
  | cons p rest ih =>
      have hp : p.1 ∉ b.map Prod.fst := by
        rw [List.map_append, List.nodup_append] at hnames
        exact fun hmem => hnames.2.2 _ hmem _ List.mem_cons_self rfl
      rw [List.foldl_cons, set_eq_append hp, ih]
      · rw [List.append_assoc]
        rfl
      · rwa [List.append_assoc]

/-- Bindings of different names are all kept, in order. -/
theorem ofList_eq {pairs : List (String × Value)} (hnames : (pairs.map Prod.fst).Nodup) :
  ofList pairs = pairs
  := foldl_set (b := []) hnames

end Bindings

/-- A call that succeeds has run the body of the function in a new scope, which binds each parameter
to its argument and nothing else. -/
theorem Run.exists_of_callClosure {setting : Setting σ} {n id : Nat} {args : List Value}
    {pos : Position} {m m' : Machine σ} {v : Value}
    (h : Run.callClosure setting n id args pos m = .ok v m')
    (hparams : (m.heap.closure id).params.Nodup) :
  let f := m.heap.closure id
  f.params.length = args.length ∧ ∃ k m₁,
    m₁.scopes.tables = m.scopes.tables.push (f.params.zip args)
    ∧ .ok v m' = (Bracket.body f args).outcome m₁ (Run.evalStatements setting k f.body
      (m.scopes.tables.size :: f.scope) ((Bracket.body f args).opened m₁))
  := by
  intro f
  change (Task.closure id args pos).run setting n m = _ at h
  cases n with
  | zero =>
      rw [Task.run_zero] at h
      cases h
  | succ k =>
      rw [Task.run_succ] at h
      simp only [Task.plan] at h
      rw [Plan.run_act] at h
      change Plan.run setting (Task.run setting k)
        (if args.length ≠ f.params.length then _ else _) m = _ at h
      -- With the wrong number of arguments, without room or without a step, the call would fail.
      by_cases hargs : args.length = f.params.length
      case neg =>
        rw [if_pos hargs] at h
        cases h
      rw [if_neg (not_not_intro hargs), Plan.run_room] at h
      split at h
      · cases h
      rw [Plan.run_tick] at h
      cases htick : Run.tick setting pos m with
      | error u m₁ =>
          rw [htick] at h
          cases h
      | ok _ m₁ =>
          obtain ⟨s, rfl⟩ := exists_eq_of_tick htick
          rw [htick] at h
          let m₁ : Machine σ := { m with
            scopes := ⟨m.scopes.tables.push (.ofList (f.params.zip args))⟩
            control := { m.control with steps := s } }
          change Plan.run setting (Task.run setting k) (.act _ _) _ = _ at h
          rw [Plan.run_act] at h
          change Plan.run setting (Task.run setting k) (.within _ _ _) m₁ = _ at h
          rw [Plan.run_within] at h
          refine ⟨hargs.symm, k, m₁, ?tables, ?body⟩
          case tables =>
            have hfst : (f.params.zip args).map Prod.fst = f.params :=
              List.map_fst_zip (Nat.le_of_eq hargs.symm)
            have hbound : Bindings.ofList (f.params.zip args) = f.params.zip args := by
              apply Bindings.ofList_eq
              rwa [hfst]
            exact congrArg m.scopes.tables.push hbound
          case body =>
            generalize (Bracket.body _ args).outcome m₁ _ = r at h ⊢
            cases r with
            | error u m₂ => cases h
            | ok w m₂ =>
                cases h
                rfl

/-! ### Evaluations -/

/-- A machine without functions is proper. -/
theorem Machine.proper_fresh (streams : σ) :
  (Machine.fresh streams).Proper
  := Array.forall_mem_empty _

/-- The plan of a program that can be run is proper. -/
theorem Program.proper_plan {program : Program}
    (hprogram : Stmt.AllEverywhere .runnable program.statements) (setting : Setting σ)
    (scope : Scope) :
  (program.plan setting scope).Proper (Value.IfError Fault.Ordinary)
  := by
  unfold plan
  split
  · refine ⟨trivial, fun v hv => ?_⟩
    cases v
    case error => exact hv
    all_goals exact ⟨hprogram, fun _ hv => hv⟩
  · exact ⟨hprogram, fun _ hv => hv⟩

/-- An evaluation of a program that can be run keeps machines clean and proper, starts only what is
proper, and has no faults but ordinary ones. -/
theorem Program.proper_run {program : Program}
    (hprogram : Stmt.AllEverywhere .runnable program.statements) (setting : Setting σ) (n : Nat)
    (scope : Scope) {m : Machine σ} (hm : m.Clean) (hproper : m.Proper) :
  (properness (.anywhere program) setting).Keeps
    (fun r => r.Sound (.anywhere program) m.anew (fun _ => True)
      ∧ r.Proper (Value.IfError Fault.Ordinary))
    (Run.evaluate setting n program scope m) (program.moments setting n scope m)
  := by
  have hkept : (properness (.anywhere program) setting).KeptWithin setting n :=
    (properness_kept _ setting).run n
  have hobeys := (program.honest_anywhere setting scope).obeys_soundness hm.anew.sound (.refl _)
  rw [Run.evaluate_apply]
  apply hkept.plan
  · exact (proper_plan hprogram setting scope).obeys hobeys hm.anew.sound hproper
      fun _ hr hrproper => ⟨hr, hrproper⟩
  · exact fun _ t _ _ => t.known_anywhere

/-- The trees that are kept of a text are proper at every depth, whatever else is malformed, and
their number literals are written with digits.  No error says that an operator is missing or that a
number is none, and it makes no difference what would be done then.  When the program is evaluated
on a machine without errors and with proper functions only, then it is so at every moment and
afterwards, all that is started is proper, also of what is read on the way, and no fault says that a
decorator is not put on a declaration, but for one that the program throws itself.  A call that
succeeds runs the body of the function in a new scope, in which there are as many names as there are
arguments. -/
theorem Program.parse_proper (text file : String) :
  (∀ s ∈ (Program.parse text file).1.statements, s.Everywhere (.proper (Source.Writes text)))
  ∧ (∀ e ∈ (Program.parse text file).2, ∀ rest,
    e.message ≠ "Expected operator but found" ++ rest
    ∧ e.message ≠ "Invalid number literal" ++ rest)
  ∧ (∀ finish missing n level left,
    Parse.binaryRestOr finish missing n level left = Parse.binaryRest finish (n + 1) level left)
  ∧ (∀ read, (∀ x, IsNumeral x → read x = some (Numeral.value x.toList)) →
    ∀ finish reject n l, l <:+ Source.tokens text →
      Parse.primaryOr finish read reject (n + 1) l = Parse.primary finish (n + 1) l)
  ∧ (∀ streams : σ, (Machine.fresh streams).Clean ∧ (Machine.fresh streams).Proper)
  ∧ ∀ (setting : Setting σ) (n : Nat) (scope : Scope) (m : Machine σ), m.Clean → m.Proper →
    let program := (Program.parse text file).1
    let result := Run.evaluate setting n program scope m
    (∀ x ∈ program.moments setting n scope m, x.machine.Clean ∧ x.machine.Proper)
    ∧ ((Outcome.machine result).Clean ∧ (Outcome.machine result).Proper)
    ∧ (∀ (y : Yield) (t : Task y) m', .start t m' ∈ program.moments setting n scope m → t.Proper)
    ∧ (∀ f ∈ program.failures setting n scope m,
      f.cause ≠ .undecoratable
      ∧ (f.message = "A decorator must wrap a declaration" → f.cause = .thrown f.message))
    ∧ (∀ f m', result = .ok (.error f) m' → f.cause ≠ .undecoratable)
    ∧ ∀ id args pos m₁, .start (.closure id args pos) m₁ ∈ program.moments setting n scope m →
      ∀ k v m₂, Run.callClosure setting k id args pos m₁ = .ok v m₂ →
        let f := m₁.heap.closure id
        let names := f.params.zip args
        f.params.Nodup ∧ names.map Prod.fst = f.params ∧ names.map Prod.snd = args
        ∧ names.length = args.length
        ∧ ∃ k' m₃, m₃.scopes.tables = m₁.scopes.tables.push names
          ∧ .ok v m₂ = (Bracket.body f args).outcome m₃ (Run.evalStatements setting k' f.body
            (m₁.scopes.tables.size :: f.scope) ((Bracket.body f args).opened m₃))
  := by
  refine ⟨everywhere_writes text file, fun e _ => e.flaw.message_ne,
    fun finish => Parse.binaryRestOr_eq finish,
    fun read hread finish reject n l hl => Parse.primaryOr_eq finish hl hread reject n,
    fun streams => ⟨(Machine.sound_fresh (.anywhere ⟨[], ""⟩) streams).clean,
      Machine.proper_fresh streams⟩, ?_⟩
  intro setting n scope m hm hproper program result
  obtain ⟨⟨hsound, hresult⟩, hmoments⟩ :=
    proper_run (runnable_parse text file) setting n scope hm hproper
  have hends (f : Fault) (m' : Machine σ) (heq : result = .ok (.error f) m') : f.Ordinary := by
    have hordinary : Outcome.Follows result (fun v _ => v.IfError Fault.Ordinary) _ :=
      hresult.result
    rw [heq] at hordinary
    exact hordinary
  refine ⟨fun x hx => ⟨(hmoments x hx).1.1.clean, (hmoments x hx).2.1⟩,
    ⟨hsound.sound.clean, hresult.machine⟩, fun y t m' ht => (hmoments _ ht).2.2, ?failures, hends,
    ?calls⟩
  case failures =>
    intro f hf
    obtain ⟨f', m', heq, hcause⟩ := Run.evaluate_eq_error hf
    have hordinary : f.Ordinary := by
      unfold Fault.Ordinary
      rw [← hcause]
      exact hends f' m' heq
    exact ⟨hordinary, hordinary.thrown⟩
  case calls =>
    intro id args pos m₁ ht k v m₂ hcall f names
    have hparams : f.params.Nodup := ((hmoments _ ht).2.1.closure id).params
    obtain ⟨hlength, hbody⟩ := Run.exists_of_callClosure hcall hparams
    have hnames : names.length = args.length := by
      rw [List.length_zip, hlength, Nat.min_self]
    exact ⟨hparams, List.map_fst_zip (Nat.le_of_eq hlength),
      List.map_snd_zip (Nat.le_of_eq hlength.symm), hnames, hbody⟩

/-- Whether a moment is the start of a call with arguments that succeeds with fuel `n`. -/
def Moment.answered (setting : Setting σ) (n : Nat) : Moment σ → Bool
  | .start (.closure id args pos) m =>
    match Run.callClosure setting n id args pos m with
    | .ok _ _ => !args.isEmpty
    | .error _ _ => false
  | _ => false

/-- What is tested to be the start of a call that succeeds is one. -/
theorem Moment.exists_of_answered {setting : Setting σ} {n : Nat} {x : Moment σ}
    (h : x.answered setting n = true) :
  ∃ id args pos m v m', x = .start (.closure id args pos) m ∧ args ≠ []
    ∧ Run.callClosure setting n id args pos m = .ok v m'
  := by
  unfold answered at h
  split at h
  next id args pos m =>
    split at h
    next v m' heq =>
      refine ⟨id, args, pos, m, v, m', rfl, ?_, heq⟩
      rintro rfl
      cases h
    next => cases h
  next => cases h

/-- A text with a malformed declaration and a decorated one, whose function is called by a text that
`eval` runs, which then throws the wording of the fault about decorators itself. -/
theorem Program.parse_proper_decorated :
  let text := "func id(f) \x7b f \x7d; let = 1; @id func twice(x) \x7b x + x \x7d; "
    ++ "eval(\"twice('ab'); throw 'A decorator must wrap a declaration'\")"
  let program := (Program.parse text "main.tiny").1
  let setting : Setting :=
    ⟨{ Options.standard with useLibrary := false, allowEval := true }, Device.standard, .empty⟩
  let m : Machine := Machine.fresh (.ofLines [])
  let read (x : String) := some (Numeral.value x.toList)
  (Program.parse text "main.tiny").2.length = 1
  ∧ program.statements.length = 3
  ∧ (∀ s ∈ program.statements, s.Everywhere (.proper (Source.Writes text)))
  ∧ (∀ x, IsNumeral x → read x = some (Numeral.value x.toList))
  ∧ (∀ finish reject n, Parse.primaryOr finish read reject (n + 1) (Source.tokens text)
    = Parse.primary finish (n + 1) (Source.tokens text))
  ∧ m.Clean ∧ m.Proper
  ∧ (∃ f ∈ program.failures setting 60 [0] m,
    f.message = "A decorator must wrap a declaration" ∧ f.cause = .thrown f.message)
  ∧ ∃ id args pos m₁ v m₂, .start (.closure id args pos) m₁ ∈ program.moments setting 60 [0] m
    ∧ args ≠ [] ∧ Run.callClosure setting 60 id args pos m₁ = .ok v m₂
    ∧ ((m₁.heap.closure id).params.zip args).length = args.length
  := by
  intro text program setting m read
  have hread (x : String) (_ : IsNumeral x) : read x = some (Numeral.value x.toList) := rfl
  have herrors : (Program.parse text "main.tiny").2.length = 1 := by decide +kernel
  have hkept : program.statements.length = 3 := by decide +kernel
  have hthrown : "A decorator must wrap a declaration"
      ∈ (program.failures setting 60 [0] m).map Fault.message := by
    decide +kernel
  have hanswered : (program.moments setting 60 [0] m).any (Moment.answered setting 60) = true := by
    decide +kernel
  obtain ⟨f, hf, hmessage⟩ := List.mem_map.mp hthrown
  obtain ⟨x, hx, hcall⟩ := List.any_eq_true.mp hanswered
  obtain ⟨id, args, pos, m₁, v, m₂, rfl, hargs, hrun⟩ := Moment.exists_of_answered hcall
  obtain ⟨hproper, -, -, hprimary, hfresh, hevaluate⟩ := Program.parse_proper text "main.tiny"
  obtain ⟨hm, hm'⟩ := hfresh (Streams.ofLines [])
  obtain ⟨-, -, -, hfailures, -, hcalls⟩ := hevaluate setting 60 [0] m hm hm'
  obtain ⟨-, -, -, hnames, -⟩ := hcalls id args pos m₁ hx 60 v m₂ hrun
  exact ⟨herrors, hkept, hproper, hread,
    fun finish reject n => hprimary read hread finish reject n _ List.suffix_rfl,
    hm, hm', ⟨f, hf, hmessage, (hfailures f hf).2 hmessage⟩,
    id, args, pos, m₁, v, m₂, hx, hargs, hrun, hnames⟩

end Scriptlet
