import Stepwise.Expr.Basic
import Stepwise.Number.Decimal
import Stepwise.Text.Blank

/-!
# The infix rules

How a reader takes a formula's text apart. Blanks and operators part the words of a
text. Of these, `Reads` says what an expression is: sums and differences group to
the left, so do products and quotients, which bind tighter; a minus with no left
operand negates, and binds looser than a power, whose exponent is a whole number;
parentheses delimit, around a group as around an argument.

The rules leave no choice:

> `Reads.unique`: a text has at most one reading.

A reader that goes through the tokens once, and keeps what stands to the left of the
operand at hand, ends with every reading that there is (`Reads.runs`); it can end in
one way only.
-/

namespace Stepwise.Infix

/-! ## Tokens -/

/-- The operators between two operands. -/
inductive Operator
  | plus
  | minus
  | times
  | divide
deriving DecidableEq

/-- The words and the signs of a text. -/
inductive Token
  | word (letters : List Char)
  | operator (operator : Operator)
  | hat
  | opening
  | closing
deriving DecidableEq

/-- The sign that a character is. -/
def Token.ofChar? : Char → Option Token
  | '+' => some (.operator .plus)
  | '-' => some (.operator .minus)
  | '*' => some (.operator .times)
  | '/' => some (.operator .divide)
  | '^' => some .hat
  | '(' => some .opening
  | ')' => some .closing
  | _ => none

/-- Whether a character belongs to a word: it is neither blank nor a sign. -/
def isWordChar (c : Char) : Bool := !Text.isBlank c && (Token.ofChar? c).isNone

/-- The word that ends behind some letters, if there are any. -/
def endWord : List Char → List Token
  | [] => []
  | letters => [.word letters]

/-- The tokens of a text that goes on behind the letters of a word. -/
def tokensBehind (letters : List Char) : List Char → List Token
  | [] => endWord letters
  | c :: cs =>
    if isWordChar c then tokensBehind (letters ++ [c]) cs
    else endWord letters ++ (Token.ofChar? c).toList ++ tokensBehind [] cs

/-- The tokens of a text: words are as long as they can be, and blanks only end them. -/
def tokens (cs : List Char) : List Token := tokensBehind [] cs

theorem tokensBehind_append_cons {c : Char} (h : isWordChar c = false) (letters xs ys : List Char) :
    tokensBehind letters (xs ++ c :: ys) =
      tokensBehind letters xs ++ (Token.ofChar? c).toList ++ tokens ys := by
  induction xs generalizing letters with
  | nil => simp [tokensBehind, h, tokens]
  | cons x xs ih =>
    rw [List.cons_append, tokensBehind, tokensBehind]
    split
    · exact ih _
    · rw [ih]
      simp only [List.append_assoc]

/-- What is not part of a word parts the tokens before it from those behind it. -/
theorem tokens_append_cons {c : Char} (h : isWordChar c = false) (xs ys : List Char) :
    tokens (xs ++ c :: ys) = tokens xs ++ (Token.ofChar? c).toList ++ tokens ys :=
  tokensBehind_append_cons h [] xs ys

theorem tokens_cons {c : Char} (h : isWordChar c = false) (ys : List Char) :
    tokens (c :: ys) = (Token.ofChar? c).toList ++ tokens ys :=
  tokens_append_cons h [] ys

theorem tokensBehind_word {cs : List Char} (h : cs.all isWordChar = true) (letters : List Char) :
    tokensBehind letters cs = endWord (letters ++ cs) := by
  induction cs generalizing letters with
  | nil => rw [tokensBehind, List.append_nil]
  | cons c cs ih =>
    rw [List.all_cons, Bool.and_eq_true] at h
    obtain ⟨hc, hcs⟩ := h
    rw [tokensBehind, if_pos hc, ih hcs, List.append_assoc, List.singleton_append]

theorem tokens_word {cs : List Char} (h : cs.all isWordChar = true) (hne : cs ≠ []) :
    tokens cs = [.word cs] := by
  rw [tokens, tokensBehind_word h, List.nil_append]
  cases cs with
  | nil => exact absurd rfl hne
  | cons c cs => rfl

/-! ## Readings -/

/-- An expression as it is read. -/
inductive Reading
  | number (value : Float)
  | name (name : String)
  | negation (operand : Reading)
  | binary (operator : Operator) (left right : Reading)
  | power (base : Reading) (exponent : Int)
  | sqrt (operand : Reading)
  | call (function : AngleFunction) (argument : Reading)

/-- The levels of the rules, the tightest first. -/
inductive Level
  | atom
  | power
  | signed
  | product
  | sum
deriving DecidableEq

/-- The level of an operator. -/
def Operator.level : Operator → Level
  | .plus | .minus => .sum
  | .times | .divide => .product

/-- The level of an operator's right operand, on which the operator itself does not
stand: operators of one level group to the left. -/
def Operator.right : Operator → Level
  | .plus | .minus => .product
  | .times | .divide => .signed

/-- A whole number without a sign. -/
def IsWhole (letters : List Char) : Prop := letters ≠ [] ∧ ∀ c ∈ letters, c.isDigit = true

/-- The tokens that read as an expression on a level. The last four rules let an
operand stand alone on the next level. -/
inductive Reads : Level → List Token → Reading → Prop
  | number {w x} (h : Number.ofText? w = some x) : Reads .atom [.word w] (.number x)
  | name {w} (h : Number.ofText? w = none) : Reads .atom [.word w] (.name (String.ofList w))
  | group {ts e} (h : Reads .sum ts e) : Reads .atom (.opening :: ts ++ [.closing]) e
  | sqrt {ts e} (h : Reads .sum ts e) :
    Reads .atom (.word "sqrt".toList :: .opening :: ts ++ [.closing]) (.sqrt e)
  | call {f : AngleFunction} {ts e} (h : Reads .sum ts e) :
    Reads .atom (.word f.name.toList :: .opening :: ts ++ [.closing]) (.call f e)
  | power {ts b w} (h : Reads .atom ts b) (hw : IsWhole w) :
    Reads .power (ts ++ [.hat, .word w]) (.power b (Decimal.ofDigits w))
  | reciprocal {ts b w} (h : Reads .atom ts b) (hw : IsWhole w) :
    Reads .power (ts ++ [.hat, .operator .minus, .word w]) (.power b (-Decimal.ofDigits w))
  | negation {ts e} (h : Reads .signed ts e) :
    Reads .signed (.operator .minus :: ts) (.negation e)
  | binary (op) {ts us l r} (hl : Reads op.level ts l) (hr : Reads op.right us r) :
    Reads op.level (ts ++ .operator op :: us) (.binary op l r)
  | ofAtom {ts e} (h : Reads .atom ts e) : Reads .power ts e
  | ofPower {ts e} (h : Reads .power ts e) : Reads .signed ts e
  | ofSigned {ts e} (h : Reads .signed ts e) : Reads .product ts e
  | ofProduct {ts e} (h : Reads .product ts e) : Reads .sum ts e

/-- The place of a level in the order from the tightest to the loosest. -/
def Level.height : Level → Nat
  | .atom => 0
  | .power => 1
  | .signed => 2
  | .product => 3
  | .sum => 4

/-- What reads on a level reads on every looser one. -/
theorem Reads.widen {level level' : Level} {ts : List Token} {e : Reading} (h : Reads level ts e)
    (hle : level.height ≤ level'.height) : Reads level' ts e := by
  have hpower (h : Reads .atom ts e) : Reads .power ts e := .ofAtom h
  have hsigned (h : Reads .power ts e) : Reads .signed ts e := .ofPower h
  have hproduct (h : Reads .signed ts e) : Reads .product ts e := .ofSigned h
  have hsum (h : Reads .product ts e) : Reads .sum ts e := .ofProduct h
  cases level <;> cases level' <;> simp [Level.height] at hle <;> simp_all

/-- A text reads as an expression. -/
def ReadsText (s : String) (e : Reading) : Prop := Reads .sum (tokens s.toList) e

/-! ## A reader -/

/-- What stands to the left of an operand inside one pair of parentheses: the terms,
the factors of the last term, and the minuses right before the operand. Each takes
what follows it as its right operand. -/
structure Frame where
  terms : Reading → Reading
  factors : Reading → Reading
  signs : Reading → Reading

namespace Frame

/-- Nothing to the left. -/
def start : Frame := ⟨id, id, id⟩

/-- The expression that ends with an operand. -/
def close (f : Frame) (e : Reading) : Reading := f.terms (f.factors (f.signs e))

/-- What stands to the left behind an operand and an operator. -/
def behind (f : Frame) (op : Operator) (e : Reading) : Frame :=
  match op.level with
  | .sum => ⟨.binary op (f.close e), id, id⟩
  | _ => ⟨f.terms, .binary op (f.factors (f.signs e)), id⟩

end Frame

/-- What a reader waits for. -/
inductive Mode
  | operand
  /-- The operand at hand may be done. -/
  | operator (operand : Reading)
  | exponent (base : Reading)
  | reciprocal (base : Reading)

/-- A reader inside some parentheses, for each of which it knows what stands to their
left and what becomes of their contents. -/
structure Reader where
  frame : Frame
  enclosing : List (Frame × (Reading → Reading))
  mode : Mode

/-- The expression that a word is. -/
def Reading.ofWord (w : List Char) : Reading :=
  match Number.ofText? w with
  | some x => .number x
  | none => .name (String.ofList w)

/-- What becomes of an argument behind the name of a function. -/
def Reading.callee? : Reading → Option (Reading → Reading)
  | .name n =>
    if n = "sqrt" then some .sqrt
    else ([.sin, .cos, .tan, .atan, .reference].find? fun f => f.name = n).map .call
  | _ => none

namespace Reader

/-- One token. -/
def step : Reader → Token → Option Reader
  | ⟨f, k, .operand⟩, .operator .minus =>
    some ⟨⟨f.terms, f.factors, f.signs ∘ .negation⟩, k, .operand⟩
  | ⟨f, k, .operand⟩, .word w => some ⟨f, k, .operator (.ofWord w)⟩
  | ⟨f, k, .operand⟩, .opening => some ⟨.start, (f, id) :: k, .operand⟩
  | ⟨f, k, .operator e⟩, .opening => e.callee?.map fun wrap => ⟨.start, (f, wrap) :: k, .operand⟩
  | ⟨f, (g, wrap) :: k, .operator e⟩, .closing => some ⟨g, k, .operator (wrap (f.close e))⟩
  | ⟨f, k, .operator e⟩, .hat => some ⟨f, k, .exponent e⟩
  | ⟨f, k, .operator e⟩, .operator op => some ⟨f.behind op e, k, .operand⟩
  | ⟨f, k, .exponent b⟩, .operator .minus => some ⟨f, k, .reciprocal b⟩
  | ⟨f, k, .exponent b⟩, .word w => some ⟨f, k, .operator (.power b (Decimal.ofDigits w))⟩
  | ⟨f, k, .reciprocal b⟩, .word w => some ⟨f, k, .operator (.power b (-Decimal.ofDigits w))⟩
  | _, _ => none

/-- Token after token. -/
def run (r : Reader) (ts : List Token) : Option Reader := ts.foldlM step r

theorem run_append (r : Reader) (ts us : List Token) :
    r.run (ts ++ us) = (r.run ts).bind fun r => r.run us := List.foldlM_append

theorem run_cons (r : Reader) (t : Token) (ts : List Token) :
    r.run (t :: ts) = (r.step t).bind fun r => r.run ts := List.foldlM_cons

end Reader

/-- How a reader takes an operand of a level. Factors stand behind factors and terms
behind terms, so an operand of a looser level comes with less to its left. -/
def Level.Runs : Level → List Token → Reading → Prop
  | .atom, ts, e | .power, ts, e => ∀ f k,
    Reader.run ⟨f, k, .operand⟩ ts = some ⟨f, k, .operator e⟩
  | .signed, ts, e => ∀ f k, ∃ signs last, signs last = f.signs e ∧
    Reader.run ⟨f, k, .operand⟩ ts = some ⟨⟨f.terms, f.factors, signs⟩, k, .operator last⟩
  | .product, ts, e => ∀ terms k, ∃ factors signs last, factors (signs last) = e ∧
    Reader.run ⟨⟨terms, id, id⟩, k, .operand⟩ ts =
      some ⟨⟨terms, factors, signs⟩, k, .operator last⟩
  | .sum, ts, e => ∀ k, ∃ f last, Frame.close f last = e ∧
    Reader.run ⟨.start, k, .operand⟩ ts = some ⟨f, k, .operator last⟩

theorem ofWord_of_none {w : List Char} (h : Number.ofText? w = none) :
    Reading.ofWord w = .name (String.ofList w) := by
  rw [Reading.ofWord, h]

/-- Parentheses give back what stood to their left. -/
theorem run_delimited {ts : List Token} {e : Reading} (h : Level.sum.Runs ts e) (f : Frame)
    (k : List (Frame × (Reading → Reading))) (wrap : Reading → Reading) :
    Reader.run ⟨.start, (f, wrap) :: k, .operand⟩ (ts ++ [.closing]) =
      some ⟨f, k, .operator (wrap e)⟩ := by
  obtain ⟨g, last, hclose, hrun⟩ := h ((f, wrap) :: k)
  rw [Reader.run_append, hrun, ← hclose]
  rfl

/-- A function and the argument in its parentheses. -/
theorem run_call {w : List Char} {wrap : Reading → Reading} {ts : List Token} {e : Reading}
    (hw : Number.ofText? w = none) (hwrap : (Reading.name (String.ofList w)).callee? = some wrap)
    (h : Level.sum.Runs ts e) :
    Level.atom.Runs (.word w :: .opening :: ts ++ [.closing]) (wrap e) := by
  intro f k
  have hcallee : Reader.step ⟨f, k, .operator (.ofWord w)⟩ .opening =
      some ⟨.start, (f, wrap) :: k, .operand⟩ := by
    rw [ofWord_of_none hw]
    show (Reading.callee? _).map _ = _
    rw [hwrap]
    rfl
  show Reader.run ⟨f, k, .operator (.ofWord w)⟩ (.opening :: ts ++ [.closing]) = _
  rw [List.cons_append, Reader.run_cons, hcallee]
  exact run_delimited h f k wrap

/-- A factor behind the factors to its left. -/
theorem run_factor {op : Operator} (hop : op.level = .product) {ts us : List Token}
    {l r : Reading} (hl : Level.product.Runs ts l) (hr : Level.signed.Runs us r) :
    Level.product.Runs (ts ++ .operator op :: us) (.binary op l r) := by
  intro terms k
  obtain ⟨factors, signs, last, hleft, hrun⟩ := hl terms k
  obtain ⟨signs', last', hright, hrun'⟩ := hr ⟨terms, .binary op (factors (signs last)), id⟩ k
  have hbehind : Frame.behind ⟨terms, factors, signs⟩ op last =
      ⟨terms, .binary op (factors (signs last)), id⟩ := by
    rw [Frame.behind, hop]
  refine ⟨.binary op (factors (signs last)), signs', last', ?_, ?_⟩
  · rw [hright, hleft]
    rfl
  · rw [Reader.run_append, hrun, Option.bind_some, Reader.run_cons]
    show Reader.run ⟨Frame.behind _ _ _, k, .operand⟩ us = _
    rw [hbehind]
    exact hrun'

/-- A term behind the terms to its left. -/
theorem run_term {op : Operator} (hop : op.level = .sum) {ts us : List Token}
    {l r : Reading} (hl : Level.sum.Runs ts l) (hr : Level.product.Runs us r) :
    Level.sum.Runs (ts ++ .operator op :: us) (.binary op l r) := by
  intro k
  obtain ⟨f, last, hleft, hrun⟩ := hl k
  obtain ⟨factors, signs, last', hright, hrun'⟩ := hr (.binary op (f.close last)) k
  have hbehind : f.behind op last = ⟨.binary op (f.close last), id, id⟩ := by
    rw [Frame.behind, hop]
  refine ⟨⟨.binary op (f.close last), factors, signs⟩, last', ?_, ?_⟩
  · rw [← hright, ← hleft]
    rfl
  · rw [Reader.run_append, hrun, Option.bind_some, Reader.run_cons]
    show Reader.run ⟨Frame.behind _ _ _, k, .operand⟩ us = _
    rw [hbehind]
    exact hrun'

/-- **A reader takes every operand as the rules read it.** -/
theorem Reads.runs {level : Level} {ts : List Token} {e : Reading} (h : Reads level ts e) :
    level.Runs ts e := by
  induction h with
  | number h =>
    intro f k
    show some _ = _
    rw [Reading.ofWord, h]
  | name h =>
    intro f k
    show some _ = _
    rw [ofWord_of_none h]
  | group h ih => exact fun f k => run_delimited ih f k id
  | sqrt h ih => exact run_call (by decide) rfl ih
  | @call f _ _ h ih => exact run_call (by cases f <;> decide) (by cases f <;> rfl) ih
  | power h hw ih =>
    intro f k
    rw [Reader.run_append, ih f k]
    rfl
  | reciprocal h hw ih =>
    intro f k
    rw [Reader.run_append, ih f k]
    rfl
  | negation h ih => exact fun f k => ih ⟨f.terms, f.factors, f.signs ∘ .negation⟩ k
  | binary op hl hr ihl ihr =>
    cases op with
    | plus => exact run_term rfl ihl ihr
    | minus => exact run_term rfl ihl ihr
    | times => exact run_factor rfl ihl ihr
    | divide => exact run_factor rfl ihl ihr
  -- A tighter operand leaves at least as much of what stands to its left as it was.
  | ofAtom h ih => exact ih
  | ofPower h ih => exact fun f k => ⟨f.signs, _, rfl, ih f k⟩
  | ofSigned h ih =>
    intro terms k
    obtain ⟨signs, last, hsigns, hrun⟩ := ih ⟨terms, id, id⟩ k
    exact ⟨id, signs, last, hsigns, hrun⟩
  | ofProduct h ih =>
    intro k
    obtain ⟨factors, signs, last, hfactors, hrun⟩ := ih id k
    exact ⟨⟨id, factors, signs⟩, last, hfactors, hrun⟩

/-- **The infix rules leave no choice**: tokens read as one expression at most. -/
theorem Reads.unique {ts : List Token} {e e' : Reading} (h : Reads .sum ts e)
    (h' : Reads .sum ts e') : e = e' := by
  obtain ⟨f, last, hclose, hrun⟩ := h.runs []
  obtain ⟨f', last', hclose', hrun'⟩ := h'.runs []
  rw [hrun] at hrun'
  cases hrun'
  rw [← hclose, ← hclose']

end Stepwise.Infix
