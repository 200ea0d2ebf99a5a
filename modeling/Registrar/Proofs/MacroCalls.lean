import Registrar.Artifact.Source
import Registrar.Proofs.Words

/-!
# How a macro call is divided

A macro gets its arguments by a reading of its own: they are divided at the commas outside
parentheses and outside string literals, whatever the text means as code. `MacroCall.read?` is that
reading. `Passes` follows it over a part of a text and counts the commas that divide, so that a call
written from operands has one argument for each operand and one more for each comma that divides an
operand (`MacroCall.read?_call`).
-/

namespace Registrar.MacroCall

/-- Where a reader of arguments stands: inside `depth` parentheses, or there in a string literal,
right behind a backslash or not. -/
inductive Position
  | code (depth : Nat)
  | literal (depth : Nat)
  | escaped (depth : Nat)
deriving DecidableEq, Repr

/-- The position behind a character; none behind the parenthesis that closes the call. -/
def Position.next? : Position → Char → Option Position
  | code depth, c =>
    if c = '"' then some (literal depth)
    else if c = '(' then some (code (depth + 1))
    else if c = ')' then
      match depth with
      | 0 => none
      | depth + 1 => some (code depth)
    else some (code depth)
  | literal depth, c =>
    if c = '"' then some (code depth)
    else if c = '\\' then some (escaped depth)
    else some (literal depth)
  | escaped depth, _ => some (literal depth)

/-- A comma divides arguments outside all parentheses and literals. -/
def Position.divides (s : Position) (c : Char) : Bool :=
  s = .code 0 ∧ c = ','

/-- The arguments with a character more in front of the first. -/
def prepend (c : Char) : List Text → List Text
  | [] => [[c]]
  | first :: others => (c :: first) :: others

/-- The arguments up to the parenthesis that closes the call, and the text behind it. -/
def arguments? : Position → Text → Option (List Text × Text)
  | _, [] => none
  | s, c :: r =>
    match s.next? c with
    | none => some ([[]], r)
    | some s' =>
      (arguments? s' r).map fun (args, rest) =>
        (if s.divides c then [] :: args else prepend c args, rest)

/-- The name and the arguments of a macro call that makes up all of a text. -/
def read? (t : Text) : Option (Text × List Text) := do
  let (name, rest) ← t.takeWord?
  let (args, rest) ← arguments? (.code 0) (← rest.takeChar? '(')
  if rest = [] then some (name, args) else none

/-! ## Parts of a call -/

/-- A part of a text leads from one position to another, and a number of commas divide it. -/
inductive Passes : Position → Text → Nat → Position → Prop
  | nil (s : Position) : Passes s [] 0 s
  | comma {r : Text} {n : Nat} {last : Position} (h : Passes (.code 0) r n last) :
      Passes (.code 0) (',' :: r) (n + 1) last
  | other {s s' last : Position} {c : Char} {r : Text} {n : Nat} (hnext : s.next? c = some s')
      (hdivides : s.divides c = false) (h : Passes s' r n last) : Passes s (c :: r) n last

namespace Passes

theorem append {s mid last : Position} {x y : Text} {n m : Nat} (hx : Passes s x n mid)
    (hy : Passes mid y m last) : Passes s (x ++ y) (n + m) last := by
  induction hx with
  | nil => rwa [List.nil_append, Nat.zero_add]
  | comma _ ih =>
      rw [Nat.add_right_comm]
      exact .comma (ih hy)
  | other hnext hdivides _ ih => exact .other hnext hdivides (ih hy)

/-- Text without quotes and parentheses is divided at each of its commas. -/
theorem plain {x : Text} (h : ∀ c ∈ x, c ∉ ['"', '(', ')']) :
    Passes (.code 0) x (x.count ',') (.code 0) := by
  induction x with
  | nil => exact .nil _
  | cons c r ih =>
      have hrest := ih fun d hd => h d (List.mem_cons_of_mem _ hd)
      have hc := h c List.mem_cons_self
      simp only [List.mem_cons, List.not_mem_nil, or_false, not_or] at hc
      by_cases hcomma : c = ','
      · rw [hcomma, List.count_cons_self]
        exact .comma hrest
      · rw [List.count_cons_of_ne hcomma]
        exact .other (by simp [Position.next?, hc]) (by simp [Position.divides, hcomma]) hrest

theorem escapeChar (c : Char) :
    Passes (.literal 0) (Artifact.escapeChar c) 0 (.literal 0) := by
  rw [Artifact.escapeChar]
  split
  · exact .other rfl rfl (.other rfl rfl (.nil _))
  · split
    · exact .other rfl rfl (.other rfl rfl (.nil _))
    · split
      · exact .other rfl rfl (.other rfl rfl (.nil _))
      · next hbackslash hquote _ =>
        exact .other (by simp [Position.next?, hbackslash, hquote]) rfl (.nil _)

theorem escape (t : Text) : Passes (.literal 0) (Artifact.escape t) 0 (.literal 0) := by
  induction t with
  | nil => exact .nil _
  | cons c r ih => exact (escapeChar c).append ih

/-- **A literal is never divided**, whatever text it is for. -/
theorem quote (t : Text) : Passes (.code 0) (Artifact.quote t) 0 (.code 0) :=
  .other rfl rfl ((escape t).append (.other rfl rfl (.nil _)))

end Passes

/-- Operands of a call that are closed in themselves, and the number of commas that divide them. -/
inductive Operands : List Text → Nat → Prop
  | nil : Operands [] 0
  | cons {x : Text} {xs : List Text} {n m : Nat} (hx : Passes (.code 0) x n (.code 0))
      (hxs : Operands xs m) : Operands (x :: xs) (n + m)

theorem Operands.append {xs ys : List Text} {n m : Nat} (hxs : Operands xs n)
    (hys : Operands ys m) : Operands (xs ++ ys) (n + m) := by
  induction hxs with
  | nil => rwa [List.nil_append, Nat.zero_add]
  | cons hx _ ih =>
      rw [Nat.add_assoc]
      exact .cons hx ih

/-- Operands that are written out are divided within and between them. -/
theorem Operands.passes {x : Text} {xs : List Text} {n : Nat} (h : Operands (x :: xs) n) :
    Passes (.code 0) (Text.joinWith ", " (x :: xs)) (n + xs.length) (.code 0) := by
  induction xs generalizing x n with
  | nil =>
      cases h with
      | cons hx hnil =>
          cases hnil
          rwa [Text.joinWith, List.intercalate_singleton]
  | cons y ys ih =>
      cases h with
      | @cons _ _ k m hx hxs =>
          have hcomma : Passes (.code 0) ", " 1 (.code 0) := .comma (.other rfl rfl (.nil _))
          have hall := (hx.append hcomma).append (ih hxs)
          rw [Text.joinWith, List.intercalate_cons_cons, ← Text.joinWith, List.length_cons]
          rw [show k + m + (ys.length + 1) = k + 1 + (m + ys.length) by omega]
          exact hall

/-! ## Whole calls -/

/-- Behind a part of a call, the arguments are one more for each comma that divides the part. -/
theorem arguments?_append {s last : Position} {x t rest : Text} {n k : Nat} {args : List Text}
    (hx : Passes s x n last) (hargs : arguments? last t = some (args, rest))
    (hlength : args.length = k + 1) :
    ∃ all, arguments? s (x ++ t) = some (all, rest) ∧ all.length = n + k + 1 := by
  induction hx with
  | nil => exact ⟨args, hargs, by omega⟩
  | comma _ ih =>
      obtain ⟨all, hall, hcount⟩ := ih hargs
      refine ⟨[] :: all, ?_, by rw [List.length_cons, hcount]; omega⟩
      rw [List.cons_append, arguments?]
      simp [Position.next?, Position.divides, hall]
  | @other s s' _ c _ _ hnext hdivides _ ih =>
      obtain ⟨all, hall, hcount⟩ := ih hargs
      obtain ⟨first, others, rfl⟩ := List.exists_cons_of_length_eq_add_one hcount
      refine ⟨prepend c (first :: others), ?_, hcount⟩
      rw [List.cons_append, arguments?]
      simp [hnext, hdivides, hall]

/-- **A call has an argument for each operand, and one for each comma that divides an operand.** -/
theorem read?_call {name : Text} {xs : List Text} {n : Nat} (hne : name ≠ [])
    (hname : ∀ c ∈ name, Text.isWord c = true) (hxs : xs ≠ []) (h : Operands xs n) :
    ∃ args, read? (Artifact.call name xs) = some (name, args) ∧ args.length = xs.length + n := by
  obtain ⟨x, others, rfl⟩ := List.exists_cons_of_ne_nil hxs
  have hclose : arguments? (.code 0) ")" = some ([[]], []) := rfl
  obtain ⟨args, hargs, hcount⟩ := arguments?_append (k := 0) h.passes hclose rfl
  refine ⟨args, ?_, by rw [hcount, List.length_cons]; omega⟩
  have hword : Text.takeWord? (Artifact.call name (x :: others)) =
      some (name, '(' :: (Text.joinWith ", " (x :: others) ++ ")")) := by
    have hcall : Artifact.call name (x :: others) =
        name ++ '(' :: (Text.joinWith ", " (x :: others) ++ ")") := by
      simp [Artifact.call]
    rw [hcall, Text.takeWord?_append hne hname rfl]
  rw [read?, hword]
  show (arguments? (.code 0) (Text.joinWith ", " (x :: others) ++ ")")).bind (fun found =>
    if found.2 = [] then some (name, found.1) else none) = _
  rw [hargs]
  rfl

end Registrar.MacroCall
