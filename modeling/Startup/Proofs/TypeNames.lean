import Mathlib.Data.List.Infix
import Startup.Component.Definition

/-!
What short names keep. Types are taken as syntax: paths with or without generic arguments, tuples,
and arrays, nested to any depth. The full name of a type is its text.

The short name is made from the text alone: what is cut off ends with the last `::` before the first
`<`. For a path that is its module path. For a tuple or an array it is nothing, as long as no module
path stands before the first `<`; otherwise the opening bracket is cut off too, with all components
before that path.

Main statement: `short_name_iff`. `tuple_loses_component` shows a tuple whose name is broken.
-/

namespace Startup

/-! ## Brackets -/

namespace Brackets

/-- The bracket that closes an opening one. -/
def closing? : Char → Option Char
  | '(' => some ')'
  | '[' => some ']'
  | '<' => some '>'
  | _ => none

def isClosing (c : Char) : Bool := [')', ']', '>'].contains c

/-- One character, read while the brackets `stack` still have to be closed, the innermost first. -/
def step (stack : List Char) (c : Char) : Option (List Char) :=
  match closing? c with
  | some close => some (close :: stack)
  | none =>
    if isClosing c then
      match stack with
      | [] => none
      | close :: outer => if c = close then some outer else none
    else some stack

/-- What is still to be closed after a text, unless a bracket is closed in it that was not open. -/
def scan (stack cs : List Char) : Option (List Char) := cs.foldlM step stack

theorem scan_append (stack cs cs' : List Char) :
    scan stack (cs ++ cs') = (scan stack cs).bind fun s => scan s cs' := List.foldlM_append

theorem scan_cons (stack cs : List Char) (c : Char) :
    scan stack (c :: cs) = (step stack c).bind fun s => scan s cs := List.foldlM_cons

/-- Brackets further out make no difference to a step. -/
theorem step_frame {stack s : List Char} {c : Char} (outer : List Char)
    (h : step stack c = some s) : step (stack ++ outer) c = some (s ++ outer) := by
  unfold step at h ⊢
  cases hc : closing? c with
  | some close =>
    simp only [hc, Option.some.injEq] at h
    simp [← h]
  | none =>
    cases stack with
    | nil =>
      by_cases hclosing : isClosing c = true
      · simp [hc, hclosing] at h
      · simp_all
    | cons close stack =>
      by_cases hclosing : isClosing c = true
      · by_cases heq : c = close
        · simp_all
        · simp [hc, hclosing, heq] at h
      · simp_all

theorem scan_frame {stack s cs : List Char} (outer : List Char) (h : scan stack cs = some s) :
    scan (stack ++ outer) cs = some (s ++ outer) := by
  induction cs generalizing stack with
  | nil =>
    cases h
    rfl
  | cons c cs ih =>
    rw [scan_cons, Option.bind_eq_some_iff] at h
    obtain ⟨s', hstep, hrest⟩ := h
    rw [scan_cons, step_frame outer hstep]
    exact ih hrest

/-- Every bracket is closed by one of its kind, and none is closed that is not open. -/
def Balanced (cs : List Char) : Prop := scan [] cs = some []

instance (cs : List Char) : Decidable (Balanced cs) := inferInstanceAs (Decidable (_ = _))

/-- A balanced text leaves the open brackets around it as they were. -/
theorem Balanced.scan {cs : List Char} (h : Balanced cs) (stack : List Char) :
    scan stack cs = some stack := by
  have hframe := scan_frame stack h
  simpa using hframe

theorem Balanced.append {cs cs' : List Char} (h : Balanced cs) (h' : Balanced cs') :
    Balanced (cs ++ cs') := by
  have hfirst : Brackets.scan [] cs = some [] := h
  rw [Balanced, scan_append, hfirst]
  exact h'

theorem Balanced.enclose {cs : List Char} {op close : Char} (h : Balanced cs)
    (hop : closing? op = some close) (hclose : closing? close = none)
    (hclosing : isClosing close = true) : Balanced (op :: (cs ++ [close])) := by
  have hopen : step [] op = some [close] := by simp [step, hop]
  have hshut : step [close] close = some [] := by simp [step, hclose, hclosing]
  rw [Balanced, scan_cons, hopen, Option.bind_some, scan_append, h.scan, Option.bind_some,
    scan_cons, hshut]
  rfl

theorem balanced_of_plain {cs : List Char}
    (h : ∀ c ∈ cs, closing? c = none ∧ isClosing c = false) : Balanced cs := by
  induction cs with
  | nil => rfl
  | cons c cs ih =>
    obtain ⟨hopen, hclose⟩ := h c List.mem_cons_self
    have hstep : step [] c = some [] := by simp [step, hopen, hclose]
    rw [Balanced, scan_cons, hstep]
    exact ih fun d hd => h d (List.mem_cons_of_mem c hd)

/-- The end of a balanced text with a closing bracket after it: that bracket closes nothing. -/
theorem not_balanced_concat {front back : List Char} {close : Char}
    (h : Balanced (front ++ back)) (hclose : closing? close = none)
    (hclosing : isClosing close = true) : ¬ Balanced (back ++ [close]) := by
  intro hback
  rw [Balanced, scan_append, Option.bind_eq_some_iff] at h hback
  obtain ⟨opened, -, hend⟩ := h
  obtain ⟨s, hs, hlast⟩ := hback
  -- after `front` the rest closes all that is open, so by itself it leaves nothing open
  have hframe := scan_frame opened hs
  rw [List.nil_append, hend, Option.some_inj] at hframe
  obtain ⟨rfl, -⟩ := List.append_eq_nil_iff.1 hframe.symm
  simp [scan, step, hclose, hclosing] at hlast

end Brackets

open Brackets

/-! ## The syntax of types -/

/-- The characters that put names together and stand in none of them. -/
def separators : List Char := ['<', '>', '(', ')', '[', ']', ',', ';', ':', ' ']

def isNameChar (c : Char) : Bool := !separators.contains c

/-- One segment of a path. -/
structure Segment where
  chars : List Char
  plain : ∀ c ∈ chars, isNameChar c = true
  ne_nil : chars ≠ []

inductive TypeSyntax where
  /-- A path, with generic arguments if there are any. -/
  | named (modules : List Segment) (name : Segment) (arguments : List TypeSyntax)
  /-- A tuple. The one without components is the unit. -/
  | tuple (components : List TypeSyntax)
  | array (element : TypeSyntax) (length : Nat)

namespace TypeSyntax

/-- Induction with a hypothesis for each argument and each component. -/
@[elab_as_elim, induction_eliminator]
theorem induct {motive : TypeSyntax → Prop}
    (named : ∀ modules name arguments, (∀ t ∈ arguments, motive t) →
      motive (.named modules name arguments))
    (tuple : ∀ components, (∀ t ∈ components, motive t) → motive (.tuple components))
    (array : ∀ element length, motive element → motive (.array element length)) :
    ∀ t, motive t
  | .named modules name arguments =>
    named modules name arguments fun t _ => induct named tuple array t
  | .tuple components => tuple components fun t _ => induct named tuple array t
  | .array element length => array element length (induct named tuple array element)

/-- Texts with a comma between each two of them. -/
def commas (texts : List (List Char)) : List Char := [',', ' '].intercalate texts

/-- Generic arguments, in angle brackets. -/
def argumentText : List (List Char) → List Char
  | [] => []
  | t :: ts => '<' :: (commas (t :: ts) ++ ['>'])

/-- A path without its arguments. -/
def pathText (modules : List Segment) (name : Segment) : List Char :=
  (modules.map fun m => m.chars ++ [':', ':']).flatten ++ name.chars

/-- What stands between the brackets of a tuple. A single component is followed by a comma. -/
def tupleText : List (List Char) → List Char
  | [t] => t ++ [',']
  | ts => commas ts

/-- What follows the element of an array. -/
def lengthText (n : Nat) : List Char := ';' :: ' ' :: Nat.toDigits 10 n

mutual

/-- The name of a type in full. -/
def text : TypeSyntax → List Char
  | named modules name arguments => pathText modules name ++ argumentText (texts arguments)
  | tuple components => '(' :: (tupleText (texts components) ++ [')'])
  | array element length => '[' :: (element.text ++ lengthText length ++ [']'])

def texts : List TypeSyntax → List (List Char)
  | [] => []
  | t :: ts => t.text :: texts ts

end

mutual

/-- Somewhere in the type there are generic arguments. -/
def isGeneric : TypeSyntax → Bool
  | named _ _ arguments => !arguments.isEmpty
  | tuple components => anyGeneric components
  | array element _ => element.isGeneric

def anyGeneric : List TypeSyntax → Bool
  | [] => false
  | t :: ts => t.isGeneric || anyGeneric ts

end

mutual

/-- A module path stands before the first generic arguments. In a tuple that may be in any component
up to the first one that has generic arguments. -/
def isExposed : TypeSyntax → Bool
  | named modules _ _ => !modules.isEmpty
  | tuple components => anyExposed components
  | array element _ => element.isExposed

def anyExposed : List TypeSyntax → Bool
  | [] => false
  | t :: ts => t.isExposed || (!t.isGeneric && anyExposed ts)

end

theorem texts_eq_map (ts : List TypeSyntax) : texts ts = ts.map text := by
  induction ts with
  | nil => rfl
  | cons t ts ih => rw [texts, ih, List.map_cons]

/-! ## Texts are balanced -/

theorem not_bracket_of_isNameChar {c : Char} (h : isNameChar c = true) :
    closing? c = none ∧ isClosing c = false := by
  simp only [isNameChar, separators, List.contains_cons, List.contains_nil, Bool.or_false,
    Bool.not_eq_true', Bool.or_eq_false_iff, beq_eq_false_iff_ne, ne_eq] at h
  constructor
  · unfold closing?
    split <;> simp_all
  · simp [isClosing, h]

theorem balanced_segment (s : Segment) : Balanced s.chars :=
  balanced_of_plain fun c hc => not_bracket_of_isNameChar (s.plain c hc)

theorem isNameChar_of_mem_toDigits {n : Nat} {c : Char} (h : c ∈ Nat.toDigits 10 n) :
    isNameChar c = true := by
  have hdigit := Nat.isDigit_of_mem_toDigits (by decide) (by decide) h
  simp only [isNameChar, Bool.not_eq_true', List.contains_eq_mem, decide_eq_false_iff_not]
  intro hmem
  simp only [separators, List.mem_cons, List.not_mem_nil, or_false] at hmem
  rcases hmem with rfl | rfl | rfl | rfl | rfl | rfl | rfl | rfl | rfl | rfl <;>
    simp [Char.isDigit] at hdigit

theorem balanced_lengthText (n : Nat) : Balanced (lengthText n) := by
  have hdigits : Balanced (Nat.toDigits 10 n) :=
    balanced_of_plain fun c hc => not_bracket_of_isNameChar (isNameChar_of_mem_toDigits hc)
  have hsep : Balanced [';', ' '] := by decide
  exact hsep.append hdigits

theorem balanced_pathText (modules : List Segment) (name : Segment) :
    Balanced (pathText modules name) := by
  induction modules with
  | nil => exact balanced_segment name
  | cons m ms ih =>
    have hsep : Balanced [':', ':'] := by decide
    have hfirst := (balanced_segment m).append hsep
    simpa [pathText] using hfirst.append ih

theorem balanced_commas {ts : List (List Char)} (h : ∀ t ∈ ts, Balanced t) :
    Balanced (commas ts) := by
  have hsep : Balanced [',', ' '] := by decide
  induction ts with
  | nil => rfl
  | cons t ts ih =>
    have ht := h t List.mem_cons_self
    have hrest := ih fun u hu => h u (List.mem_cons_of_mem t hu)
    cases ts with
    | nil => simpa [commas] using ht
    | cons u us =>
      rw [commas, List.intercalate_cons_cons]
      exact (ht.append hsep).append hrest

theorem balanced_tupleText {ts : List (List Char)} (h : ∀ t ∈ ts, Balanced t) :
    Balanced (tupleText ts) := by
  unfold tupleText
  split
  · have hcomma : Balanced [','] := by decide
    exact (h _ List.mem_cons_self).append hcomma
  · exact balanced_commas h

theorem balanced_argumentText {ts : List (List Char)} (h : ∀ t ∈ ts, Balanced t) :
    Balanced (argumentText ts) := by
  cases ts with
  | nil => rfl
  | cons t ts => exact (balanced_commas h).enclose rfl rfl rfl

theorem balanced_text (t : TypeSyntax) : Balanced t.text := by
  induction t with
  | named modules name arguments ih =>
    have hall : ∀ x ∈ texts arguments, Balanced x := by
      simpa [texts_eq_map] using ih
    exact (balanced_pathText modules name).append (balanced_argumentText hall)
  | tuple components ih =>
    have hall : ∀ x ∈ texts components, Balanced x := by
      simpa [texts_eq_map] using ih
    exact (balanced_tupleText hall).enclose rfl rfl rfl
  | array element length ih =>
    exact (ih.append (balanced_lengthText length)).enclose rfl rfl rfl

/-! ## Members stand in the text -/

mutual

/-- The short names of the named types that a type consists of. What stands between angle brackets
belongs to one of them. -/
def members : TypeSyntax → List (List Char)
  | named _ name arguments => [name.chars ++ argumentText (texts arguments)]
  | tuple components => allMembers components
  | array element _ => element.members

def allMembers : List TypeSyntax → List (List Char)
  | [] => []
  | t :: ts => t.members ++ allMembers ts

end

theorem mem_allMembers {x : List Char} {ts : List TypeSyntax} :
    x ∈ allMembers ts ↔ ∃ t ∈ ts, x ∈ t.members := by
  induction ts with
  | nil => simp [allMembers]
  | cons t ts ih => simp [allMembers, ih]

theorem infix_commas {t : List Char} {ts : List (List Char)} (h : t ∈ ts) : t <:+: commas ts := by
  induction ts with
  | nil => cases h
  | cons u us ih =>
    cases us with
    | nil =>
      obtain rfl := List.mem_singleton.1 h
      simp [commas]
    | cons v vs =>
      rw [commas, List.intercalate_cons_cons]
      rcases List.mem_cons.1 h with rfl | hmem
      · rw [List.append_assoc]
        exact (List.prefix_append t _).isInfix
      · exact (ih hmem).trans (List.suffix_append _ _).isInfix

theorem infix_tupleText {t : List Char} {ts : List (List Char)} (h : t ∈ ts) :
    t <:+: tupleText ts := by
  unfold tupleText
  split
  · obtain rfl := List.mem_singleton.1 h
    exact (List.prefix_append _ _).isInfix
  · exact infix_commas h

theorem infix_enclose (op close : Char) (cs : List Char) : cs <:+: op :: (cs ++ [close]) :=
  ⟨[op], [close], rfl⟩

theorem members_infix {t : TypeSyntax} {x : List Char} (h : x ∈ t.members) : x <:+: t.text := by
  induction t with
  | named modules name arguments _ =>
    have heq : x = name.chars ++ argumentText (texts arguments) := List.mem_singleton.1 h
    rw [heq, text, pathText, List.append_assoc]
    exact (List.suffix_append _ _).isInfix
  | tuple components ih =>
    obtain ⟨t, ht, hx⟩ := mem_allMembers.1 h
    have htext : t.text ∈ texts components := by
      rw [texts_eq_map]
      exact List.mem_map_of_mem ht
    exact ((ih t ht hx).trans (infix_tupleText htext)).trans (infix_enclose _ _ _)
  | array element length ih =>
    have hfront : element.text <:+: element.text ++ lengthText length :=
      (List.prefix_append _ _).isInfix
    exact ((ih h).trans hfront).trans (infix_enclose _ _ _)

end TypeSyntax

/-! ## The end of the first path -/

namespace TypeName

/-- What follows the last `::` before the first `<`. -/
def pathEnd (cs : List Char) : Option (List Char) := afterSeparator (cs.takeWhile (· ≠ '<'))

theorem afterSeparator_cons_of_ne {c : Char} (h : c ≠ ':') (cs : List Char) :
    afterSeparator (c :: cs) = afterSeparator cs := by
  rw [afterSeparator]
  simp [h]

theorem afterSeparator_append_of_not_mem {cs : List Char} (h : ':' ∉ cs) (rest : List Char) :
    afterSeparator (cs ++ rest) = afterSeparator rest := by
  induction cs with
  | nil => rfl
  | cons c cs ih =>
    have hc : c ≠ ':' := fun heq => h (heq ▸ List.mem_cons_self)
    rw [List.cons_append, afterSeparator_cons_of_ne hc]
    exact ih fun hmem => h (List.mem_cons_of_mem c hmem)

theorem afterSeparator_split {cs last : List Char} (h : afterSeparator cs = some last) :
    ∃ front, cs = front ++ ':' :: ':' :: last := by
  fun_induction afterSeparator cs with
  | case1 => cases h
  | case2 r ih =>
    cases hrest : afterSeparator (':' :: r) with
    | none =>
      rw [hrest, Option.getD_none] at h
      cases h
      exact ⟨[], rfl⟩
    | some last' =>
      rw [hrest, Option.getD_some] at h
      cases h
      obtain ⟨front, hfront⟩ := ih hrest
      exact ⟨':' :: front, by rw [hfront, List.cons_append]⟩
  | case3 c r _ ih =>
    obtain ⟨front, rfl⟩ := ih h
    exact ⟨c :: front, rfl⟩

theorem pathEnd_append {cs : List Char} (h : ∀ c ∈ cs, c ≠ ':' ∧ c ≠ '<') (rest : List Char) :
    pathEnd (cs ++ rest) = pathEnd rest := by
  have hangle : ∀ c ∈ cs, (decide (c ≠ '<')) = true := fun c hc => by simp [(h c hc).2]
  have hcolon : ':' ∉ cs := fun hmem => (h _ hmem).1 rfl
  rw [pathEnd, List.takeWhile_append_of_pos hangle, afterSeparator_append_of_not_mem hcolon]
  rfl

theorem pathEnd_angle (cs : List Char) : pathEnd ('<' :: cs) = none := rfl

theorem isSome_pathEnd_separator (cs : List Char) : (pathEnd (':' :: ':' :: cs)).isSome := by
  simp [pathEnd, afterSeparator]

theorem shortChars_eq (cs : List Char) :
    shortChars cs =
      (pathEnd cs).getD (cs.takeWhile (· ≠ '<')) ++ cs.dropWhile (· ≠ '<') := by
  unfold shortChars pathEnd
  cases afterSeparator (cs.takeWhile (· ≠ '<')) with
  | none => exact (List.takeWhile_append_dropWhile).symm
  | some last => rfl

theorem shortChars_of_none {cs : List Char} (h : pathEnd cs = none) : shortChars cs = cs := by
  rw [shortChars_eq, h]
  exact List.takeWhile_append_dropWhile

theorem shortChars_split {cs : List Char} (h : (pathEnd cs).isSome = true) :
    ∃ front, cs = front ++ ':' :: ':' :: shortChars cs := by
  obtain ⟨last, hlast⟩ := Option.isSome_iff_exists.1 h
  obtain ⟨front, hfront⟩ := afterSeparator_split hlast
  have hcs : cs.takeWhile (· ≠ '<') ++ cs.dropWhile (· ≠ '<') = cs :=
    List.takeWhile_append_dropWhile
  refine ⟨front, ?_⟩
  rw [shortChars_eq, hlast, Option.getD_some]
  calc cs = cs.takeWhile (· ≠ '<') ++ cs.dropWhile (· ≠ '<') := hcs.symm
    _ = front ++ ':' :: ':' :: (last ++ cs.dropWhile (· ≠ '<')) := by rw [hfront]; simp

end TypeName

namespace TypeSyntax

open Startup.TypeName

theorem ne_of_isNameChar {c : Char} (h : isNameChar c = true) : c ≠ ':' ∧ c ≠ '<' := by
  constructor <;> rintro rfl <;> simp [isNameChar, separators] at h

theorem pathEnd_segment (s : Segment) (rest : List Char) :
    pathEnd (s.chars ++ rest) = pathEnd rest :=
  pathEnd_append (fun c hc => ne_of_isNameChar (s.plain c hc)) rest

theorem pathEnd_lengthText (n : Nat) (rest : List Char) :
    pathEnd (lengthText n ++ rest) = pathEnd rest := by
  apply pathEnd_append
  intro c hc
  simp only [lengthText, List.mem_cons] at hc
  rcases hc with rfl | rfl | hdigit
  · decide
  · decide
  · exact ne_of_isNameChar (isNameChar_of_mem_toDigits hdigit)

theorem isSome_pathEnd_path (modules : List Segment) (name : Segment) (rest : List Char) :
    (pathEnd (pathText modules name ++ rest)).isSome =
      (!modules.isEmpty || (pathEnd rest).isSome) := by
  cases modules with
  | nil => simp [pathText, pathEnd_segment]
  | cons m ms =>
    have hsome := isSome_pathEnd_separator (pathText ms name ++ rest)
    simpa [pathText, pathEnd_segment] using hsome

theorem isSome_pathEnd_commas {ts : List TypeSyntax}
    (h : ∀ t ∈ ts, ∀ rest, (pathEnd (t.text ++ rest)).isSome =
      (t.isExposed || (!t.isGeneric && (pathEnd rest).isSome))) (rest : List Char) :
    (pathEnd (commas (texts ts) ++ rest)).isSome =
      (anyExposed ts || (!anyGeneric ts && (pathEnd rest).isSome)) := by
  induction ts with
  | nil => simp [texts, commas, anyExposed, anyGeneric]
  | cons t ts ih =>
    have ht := h t List.mem_cons_self
    have hts := ih fun u hu => h u (List.mem_cons_of_mem t hu)
    have hsep (cs : List Char) : pathEnd ([',', ' '] ++ cs) = pathEnd cs :=
      pathEnd_append (by simp) cs
    cases ts with
    | nil => simp [texts, commas, ht, anyExposed, anyGeneric]
    | cons u us =>
      rw [texts, texts, commas, List.intercalate_cons_cons, List.append_assoc, List.append_assoc,
        ht, hsep]
      rw [texts, commas] at hts
      rw [hts]
      simp only [anyExposed, anyGeneric]
      cases t.isExposed <;> cases t.isGeneric <;> simp

theorem isSome_pathEnd_tupleText {ts : List TypeSyntax}
    (h : ∀ t ∈ ts, ∀ rest, (pathEnd (t.text ++ rest)).isSome =
      (t.isExposed || (!t.isGeneric && (pathEnd rest).isSome))) (rest : List Char) :
    (pathEnd (tupleText (texts ts) ++ rest)).isSome =
      (anyExposed ts || (!anyGeneric ts && (pathEnd rest).isSome)) := by
  have hcommas := isSome_pathEnd_commas h
  match ts with
  | [] => exact hcommas rest
  | [t] =>
    -- the comma after a single component is no part of a path
    have hcomma : pathEnd ([','] ++ rest) = pathEnd rest := pathEnd_append (by simp) rest
    have ht := hcommas ([','] ++ rest)
    rw [hcomma, texts, texts, commas, List.intercalate_singleton] at ht
    rw [texts, texts, tupleText, List.append_assoc, ht]
  | t :: u :: us => exact hcommas rest

/-- A module path stands before the first `<` of the text, or the text has no `<` and one stands
before the first `<` of what follows. -/
theorem isSome_pathEnd (t : TypeSyntax) (rest : List Char) :
    (pathEnd (t.text ++ rest)).isSome =
      (t.isExposed || (!t.isGeneric && (pathEnd rest).isSome)) := by
  induction t generalizing rest with
  | named modules name arguments _ =>
    rw [text, List.append_assoc, isSome_pathEnd_path, isExposed, isGeneric]
    cases arguments with
    | nil => simp [texts, argumentText]
    | cons t ts => simp [texts, argumentText, pathEnd_angle]
  | tuple components ih =>
    have hopen (cs : List Char) : pathEnd (['('] ++ cs) = pathEnd cs := pathEnd_append (by simp) cs
    have hclose : pathEnd ([')'] ++ rest) = pathEnd rest := pathEnd_append (by simp) rest
    have hinner := isSome_pathEnd_tupleText ih ([')'] ++ rest)
    rw [hclose, ← List.append_assoc, ← hopen] at hinner
    exact hinner
  | array element length ih =>
    have hopen (cs : List Char) : pathEnd (['['] ++ cs) = pathEnd cs := pathEnd_append (by simp) cs
    have hclose : pathEnd ([']'] ++ rest) = pathEnd rest := pathEnd_append (by simp) rest
    have hinner := ih (lengthText length ++ ([']'] ++ rest))
    rw [pathEnd_lengthText, hclose, ← List.append_assoc, ← List.append_assoc, ← hopen] at hinner
    exact hinner

/-! ## Short names -/

theorem pathText_cons (m : Segment) (modules : List Segment) (name : Segment) :
    pathText (m :: modules) name = m.chars ++ ':' :: ':' :: pathText modules name := by
  simp [pathText]

theorem not_mem_segment (s : Segment) : ':' ∉ s.chars :=
  fun h => (ne_of_isNameChar (s.plain _ h)).1 rfl

/-- No colon stands at the beginning of a path. -/
theorem head_pathText (modules : List Segment) (name : Segment) :
    ∃ c cs, pathText modules name = c :: cs ∧ c ≠ ':' := by
  have hhead (s : Segment) (rest : List Char) : ∃ c cs, s.chars ++ rest = c :: cs ∧ c ≠ ':' := by
    cases hs : s.chars with
    | nil => exact absurd hs s.ne_nil
    | cons c cs =>
      have hc : c ∈ s.chars := by simp [hs]
      exact ⟨c, cs ++ rest, rfl, (ne_of_isNameChar (s.plain c hc)).1⟩
  cases modules with
  | nil => simpa [pathText] using hhead name []
  | cons m ms =>
    rw [pathText_cons]
    exact hhead m _

theorem afterSeparator_pathText (modules : List Segment) (name : Segment) :
    (afterSeparator (pathText modules name)).getD (pathText modules name) = name.chars := by
  induction modules with
  | nil =>
    have hnone := afterSeparator_none_of_not_mem (not_mem_segment name)
    simp [pathText, hnone]
  | cons m ms ih =>
    obtain ⟨c, cs, hpath, hc⟩ := head_pathText ms name
    have hcolon : afterSeparator (':' :: pathText ms name) = afterSeparator (pathText ms name) := by
      rw [hpath, afterSeparator]
      simp [hc]
    rw [pathText_cons, afterSeparator_append_of_not_mem (not_mem_segment m), afterSeparator, hcolon,
      Option.getD_some, ih]

/-- The last segment of a path and the arguments are all that is left of a named type. -/
theorem shortChars_named (modules : List Segment) (name : Segment) (arguments : List TypeSyntax) :
    shortChars (named modules name arguments).text =
      name.chars ++ argumentText (texts arguments) := by
  have hplain : ∀ c ∈ pathText modules name, (decide (c ≠ '<')) = true := by
    induction modules with
    | nil =>
      intro c hc
      simp [(ne_of_isNameChar (name.plain c hc)).2]
    | cons m ms ih =>
      intro c hc
      rw [pathText_cons] at hc
      simp only [List.mem_append, List.mem_cons] at hc
      rcases hc with hm | rfl | rfl | hrest
      · simp [(ne_of_isNameChar (m.plain c hm)).2]
      · decide
      · decide
      · exact ih c hrest
  have htake : (argumentText (texts arguments)).takeWhile (· ≠ '<') = [] := by
    cases arguments <;> rfl
  have hdrop : (argumentText (texts arguments)).dropWhile (· ≠ '<') =
      argumentText (texts arguments) := by
    cases arguments <;> rfl
  rw [shortChars_eq, pathEnd, text, List.takeWhile_append_of_pos hplain,
    List.dropWhile_append_of_pos hplain, htake, hdrop, List.append_nil, afterSeparator_pathText]

theorem shortChars_of_not_isExposed {t : TypeSyntax} (h : t.isExposed = false) :
    shortChars t.text = t.text := by
  have hend := isSome_pathEnd t []
  have hnil : (pathEnd []).isSome = false := rfl
  rw [List.append_nil, h, hnil, Bool.and_false, Bool.or_false] at hend
  exact shortChars_of_none (Option.isNone_iff_eq_none.1 (Option.isSome_eq_false_iff.1 hend))

/-- A bracketed text of which something is cut off, up to a `::`, has lost its opening bracket. -/
theorem not_balanced_of_cut {op close : Char} {inner front short : List Char}
    (hinner : Balanced inner) (hop : op ≠ ':') (hclose : closing? close = none)
    (hclosing : isClosing close = true)
    (h : op :: (inner ++ [close]) = front ++ ':' :: ':' :: short) : ¬ Balanced short := by
  cases front with
  | nil => exact absurd (List.cons.inj h).1 hop
  | cons c front =>
    have htail : inner ++ [close] = front ++ ':' :: ':' :: short := (List.cons.inj h).2
    rcases List.eq_nil_or_concat' short with rfl | ⟨back, d, rfl⟩
    · have hlast : inner ++ [close] = (front ++ [':']) ++ [':'] := by simpa using htail
      obtain ⟨-, hcolon⟩ := List.append_inj' hlast rfl
      obtain rfl := List.singleton_inj.1 hcolon
      exact absurd hclosing (by decide)
    · have hlast : inner ++ [close] = ((front ++ [':', ':']) ++ back) ++ [d] := by simpa using htail
      obtain ⟨hfront, hd⟩ := List.append_inj' hlast rfl
      obtain rfl := List.singleton_inj.1 hd
      rw [hfront] at hinner
      exact not_balanced_concat hinner hclose hclosing

/-- Tuples and arrays. -/
def isBracketed : TypeSyntax → Bool
  | named _ _ _ => false
  | _ => true

theorem not_balanced_of_isExposed {t : TypeSyntax} (hbracketed : t.isBracketed = true)
    (hexposed : t.isExposed = true) : ¬ Balanced (shortChars t.text) := by
  have hend := isSome_pathEnd t []
  rw [List.append_nil, hexposed, Bool.true_or] at hend
  obtain ⟨front, hcut⟩ := shortChars_split hend
  cases t with
  | named modules name arguments => cases hbracketed
  | tuple components =>
    have hall : ∀ x ∈ texts components, Balanced x := by
      simp [texts_eq_map, balanced_text]
    exact not_balanced_of_cut (balanced_tupleText hall) (by decide) rfl rfl hcut
  | array element length =>
    have hinner := (balanced_text element).append (balanced_lengthText length)
    exact not_balanced_of_cut hinner (by decide) rfl rfl hcut

/-- What the short name of a type should be. A named type keeps its last segment and its arguments.
The name of a tuple or an array stays balanced and still names all that it consists of. -/
def Shortens : TypeSyntax → List Char → Prop
  | named _ name arguments, s => s = name.chars ++ argumentText (texts arguments)
  | t, s => Balanced s ∧ ∀ x ∈ t.members, x <:+: s

/-- The name of a type, as text. -/
def fullName (t : TypeSyntax) : String := String.ofList t.text

end TypeSyntax

open TypeSyntax

/-- Short names are as they should be, except for the tuples and arrays in whose text a module path
stands before the first `<`. There the brackets are broken. All other tuples and arrays keep their
names as they are. -/
theorem short_name_iff (t : TypeSyntax) :
    (t.Shortens (TypeName.short t.fullName).toList ↔ (t.isBracketed && t.isExposed) = false) ∧
    (Balanced (TypeName.short t.fullName).toList ↔ (t.isBracketed && t.isExposed) = false) ∧
    (t.isBracketed = true →
      (TypeName.short t.fullName = t.fullName ↔ t.isExposed = false)) := by
  have hshort : TypeName.short t.fullName = String.ofList (TypeName.shortChars t.text) := by
    rw [TypeName.short, fullName, String.toList_ofList]
  rw [hshort, String.toList_ofList]
  cases hbracketed : t.isBracketed with
  | false =>
    cases t with
    | named modules name arguments =>
      have hbalanced : Balanced (name.chars ++ argumentText (texts arguments)) := by
        apply (balanced_segment name).append (balanced_argumentText _)
        simp [texts_eq_map, balanced_text]
      rw [shortChars_named]
      simp [Shortens, hbalanced]
    | tuple components => cases hbracketed
    | array element length => cases hbracketed
  | true =>
    have hshortens (s : List Char) :
        t.Shortens s ↔ Balanced s ∧ ∀ x ∈ t.members, x <:+: s := by
      cases t with
      | named modules name arguments => cases hbracketed
      | tuple components => exact Iff.rfl
      | array element length => exact Iff.rfl
    cases hexposed : t.isExposed with
    | false =>
      rw [shortChars_of_not_isExposed hexposed]
      simp only [hshortens, balanced_text, Bool.and_false, fullName, true_and, iff_true,
        implies_true, and_true]
      exact fun x hx => members_infix hx
    | true =>
      have hbroken := not_balanced_of_isExposed hbracketed hexposed
      have hchanged : String.ofList (TypeName.shortChars t.text) ≠ t.fullName := by
        intro heq
        rw [fullName, String.ofList_inj] at heq
        rw [heq] at hbroken
        exact hbroken (balanced_text t)
      simp [hshortens, hbroken, hchanged]

namespace TypeSyntax

/-- A segment that is checked when it is written. -/
def segment (chars : List Char) (h : (chars.all isNameChar && !chars.isEmpty) = true) : Segment :=
  ⟨chars, by simp_all, by simp_all⟩

def u32 : TypeSyntax := named [] (segment ['u', '3', '2'] rfl) []

/-- `[(u32, u32); 4]` -/
def pairs : TypeSyntax := array (tuple [u32, u32]) 4

/-- No module path is in the text, so nothing is cut off. -/
theorem pairs_keep_name :
    pairs.isBracketed = true ∧ pairs.isExposed = false ∧
      TypeName.short "[(u32, u32); 4]" = "[(u32, u32); 4]" := by
  have hname : pairs.fullName = "[(u32, u32); 4]" := by decide +kernel
  obtain ⟨-, -, hkept⟩ := short_name_iff pairs
  rw [← hname]
  exact ⟨rfl, rfl, (hkept rfl).2 rfl⟩

/-- `alloc::string::String` -/
def string : TypeSyntax :=
  named [segment ['a', 'l', 'l', 'o', 'c'] rfl, segment ['s', 't', 'r', 'i', 'n', 'g'] rfl]
    (segment ['S', 't', 'r', 'i', 'n', 'g'] rfl) []

/-- The opening bracket and the first component are lost with the module path. -/
theorem tuple_loses_component :
    (tuple [u32, string]).fullName = "(u32, alloc::string::String)" ∧
      TypeName.short (tuple [u32, string]).fullName = "String)" ∧
      ¬ (tuple [u32, string]).Shortens (TypeName.short (tuple [u32, string]).fullName).toList := by
  have hshort : TypeName.short (tuple [u32, string]).fullName = "String)" := by decide +kernel
  have hbroken : ¬ Balanced "String)".toList := by decide +kernel
  refine ⟨by decide +kernel, hshort, ?_⟩
  rw [hshort]
  exact fun h => hbroken h.1

end TypeSyntax

end Startup
