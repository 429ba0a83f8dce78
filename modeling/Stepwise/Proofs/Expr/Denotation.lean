import Mathlib.Data.Rat.Cast.Lemmas
import Stepwise.Proofs.Expr.Value
import Stepwise.Proofs.Number.ReadBack

/-!
# Texts that stand for a value

A text denotes a value on a level if it reads there as an expression that stands for
the value. Operands that denote values on the levels that an operator asks for make
up a text that denotes what the operator makes of the values. A plus asks less of its
right operand than the rules do, which may be a sum, as does a times:

> `Denotes.joined`: sums joined by plus signs denote the sum of them all, and
> products joined by times signs their product.

The grouping of the expression that is read differs from that of the operands; the
field's laws make up for it.
-/

namespace Stepwise

open Infix

universe u

/-! ## Words -/

/-- Whether a name is a word and not readable as a number. -/
def isIdentifier (name : String) : Bool :=
  name.toList ≠ [] && name.toList.all isWordChar && (Number.ofText? name.toList).isNone

theorem isWordChar_of_isDigit {c : Char} (h : c.isDigit = true) : isWordChar c = true := by
  have hrange : 48 ≤ c.toNat ∧ c.toNat ≤ 57 := by
    simpa [Char.isDigit, UInt32.le_iff_toNat_le] using h
  have hsign : Token.ofChar? c = none := by
    unfold Token.ofChar?
    split <;> first | rfl | exact absurd h (by decide)
  have hblank : Text.isBlank c = false := by
    simp [Text.isBlank]
    omega
  rw [isWordChar, hsign, hblank]
  rfl

/-- The text of a number without a minus is one word. -/
theorem tokens_text {x : Float} (h : Number.isFinite x = true) (hneg : Binary.isNegative x = false) :
    tokens (Number.text x).toList = [.word (Number.text x).toList] := by
  refine tokens_word (List.all_eq_true.2 fun c hc => ?_) (fun hnil => ?_)
  · obtain ⟨whole, fraction, hnumeral, -⟩ :=
      Decimal.isNumeral_text (Decimal.shortest (Binary.rank x))
    rw [Number.text_of_isFinite h, hneg] at hc
    rcases hnumeral.forall_mem c hc with hdigit | rfl
    · exact isWordChar_of_isDigit hdigit
    · rfl
  · have hread := Number.ofText?_text h
    rw [hnil] at hread
    cases hread

theorem isFinite_magnitude {x : Float} (h : Number.isFinite x = true) :
    Number.isFinite (Binary.magnitude x) = true := by
  have hrank := Number.isFinite_iff.1 h
  rw [Number.isFinite_iff, Binary.rank_magnitude hrank]
  exact hrank

/-- A number with its sign set prints as a minus and the text of its magnitude. -/
theorem text_of_isNegative {x : Float} (h : Number.isFinite x = true)
    (hneg : Binary.isNegative x = true) :
    (Number.text x).toList = '-' :: (Number.text (Binary.magnitude x)).toList := by
  have hrank := Number.isFinite_iff.1 h
  rw [Number.text_of_isFinite h, Number.text_of_isFinite (isFinite_magnitude h), hneg,
    Binary.isNegative_magnitude hrank, Binary.rank_magnitude hrank]
  rfl

theorem isWhole_repr (n : Nat) : IsWhole n.repr.toList := by
  rw [Nat.toList_repr]
  exact ⟨Nat.toDigits_ne_nil, fun c hc => Nat.isDigit_of_mem_toDigits (by decide) (by decide) hc⟩

theorem ofDigits_repr (n : Nat) : Decimal.ofDigits n.repr.toList = n := by
  rw [Nat.toList_repr]
  exact Decimal.ofDigits_replicate_append 0 n

theorem tokens_repr (n : Nat) : tokens n.repr.toList = [.word n.repr.toList] :=
  tokens_word (List.all_eq_true.2 fun c hc => isWordChar_of_isDigit ((isWhole_repr n).2 c hc))
    (isWhole_repr n).1

/-! ## Denotations -/

section Denotes

variable {K : Type u} [Field K] [DecidableEq K] {I : Interpretation K}
  {level : Level} {s t : String} {v w : Option K}

/-- A text reads on a level as an expression that stands for a value. -/
def Denotes (I : Interpretation K) (level : Level) (s : String) (v : Option K) : Prop :=
  ∃ e, Reads level (tokens s.toList) e ∧ e.value I = v

namespace Denotes

theorem widen {level' : Level} (h : Denotes I level s v) (hle : level.height ≤ level'.height) :
    Denotes I level' s v := by
  obtain ⟨e, hreads, hvalue⟩ := h
  exact ⟨e, hreads.widen hle, hvalue⟩

theorem toSum (h : Denotes I level s v) : Denotes I .sum s v :=
  h.widen (by cases level <;> exact Nat.le_of_ble_eq_true rfl)

/-! ### Operands of operators -/

/-- A sign between two blanks parts its operands. -/
theorem tokens_operator {sign : Char} {token : Token} {operator : String}
    (hoperator : operator.toList = [' ', sign, ' ']) (hsign : Token.ofChar? sign = some token) :
    tokens (s ++ operator ++ t).toList = tokens s.toList ++ token :: tokens t.toList := by
  have hword : isWordChar sign = false := by
    rw [isWordChar, hsign]
    exact Bool.and_false _
  have hblank : isWordChar ' ' = false := rfl
  have hnone : Token.ofChar? ' ' = none := rfl
  rw [String.toList_append, String.toList_append, hoperator, List.append_assoc,
    List.cons_append, tokens_append_cons hblank, List.cons_append, tokens_cons hword,
    List.singleton_append, tokens_cons hblank, hsign, hnone]
  simp

theorem difference (hs : Denotes I .sum s v) (ht : Denotes I .product t w) :
    Denotes I .sum (s ++ " - " ++ t) (Operator.minus.apply v w) := by
  obtain ⟨l, hl, rfl⟩ := hs
  obtain ⟨r, hr, rfl⟩ := ht
  refine ⟨.binary .minus l r, ?_, rfl⟩
  rw [tokens_operator rfl rfl]
  exact .binary .minus hl hr

theorem quotient (hs : Denotes I .product s v) (ht : Denotes I .signed t w) :
    Denotes I .product (s ++ " / " ++ t) (Operator.divide.apply v w) := by
  obtain ⟨l, hl, rfl⟩ := hs
  obtain ⟨r, hr, rfl⟩ := ht
  refine ⟨.binary .divide l r, ?_, rfl⟩
  rw [tokens_operator rfl rfl]
  exact .binary .divide hl hr

/-- The right operand of a plus may be a sum, and that of a times a product: its own
operands join those on the left one by one. -/
theorem exists_joined {op : Operator} (hop : op = .plus ∨ op = .times) {ts us : List Token}
    {l r : Reading} (hl : Reads op.level ts l) (hr : Reads op.level us r) :
    ∃ e, Reads op.level (ts ++ .operator op :: us) e ∧
      e.value I = op.apply (l.value I) (r.value I) := by
  -- The induction goes down the left operands of the right operand.
  generalize hlevel : op.level = level at hr
  induction hr with
  | @binary op' us us' r r' _ hr' ih _ =>
    obtain ⟨e, hreads, hvalue⟩ := ih hlevel
    refine ⟨.binary op' e r', ?_, ?_⟩
    · rw [← List.cons_append, ← List.append_assoc]
      exact .binary op' hreads hr'
    · show op'.apply (e.value I) (r'.value I) = op.apply _ (op'.apply (r.value I) (r'.value I))
      rw [hvalue, Operator.apply_apply hop hlevel.symm]
  | ofSigned h =>
    rcases hop with rfl | rfl
    · cases hlevel
    · exact ⟨_, .binary .times hl h, rfl⟩
  | ofProduct h =>
    rcases hop with rfl | rfl
    · exact ⟨_, .binary .plus hl h, rfl⟩
    · cases hlevel
  | _ => rcases hop with rfl | rfl <;> cases hlevel

/-- Operands joined by plus signs stand for their sum, and by times signs for their
product. -/
theorem joined {op : Operator} (hop : op = .plus ∨ op = .times) {sign : Char} {separator : String}
    (hseparator : separator.toList = [' ', sign, ' '])
    (hsign : Token.ofChar? sign = some (.operator op)) {unit : K}
    (hunit : ∀ v, op.apply v (some unit) = v) {texts : List String} {values : List (Option K)}
    (hne : texts ≠ []) (h : List.Forall₂ (Denotes I op.level) texts values) :
    Denotes I op.level (separator.intercalate texts) (values.foldr op.apply (some unit)) := by
  induction h with
  | nil => exact absurd rfl hne
  | @cons s v texts values hs h ih =>
    cases h with
    | nil =>
      rw [String.intercalate_singleton]
      show Denotes I op.level s (op.apply v (some unit))
      rw [hunit]
      exact hs
    | cons ht h =>
      obtain ⟨l, hl, rfl⟩ := hs
      obtain ⟨r, hr, hvalue⟩ := ih (List.cons_ne_nil _ _)
      obtain ⟨e, hreads, hjoined⟩ := exists_joined (I := I) hop hl hr
      refine ⟨e, ?_, ?_⟩
      · rw [String.intercalate_cons_cons, tokens_operator hseparator hsign]
        exact hreads
      · rw [hjoined, hvalue]
        rfl

theorem sum {texts : List String} {values : List (Option K)} (hne : texts ≠ [])
    (h : List.Forall₂ (Denotes I .sum) texts values) :
    Denotes I .sum (" + ".intercalate texts) (values.foldr Operator.plus.apply (some 0)) := by
  have hzero : ∀ v : Option K, Operator.plus.apply v (some 0) = v := by
    intro v
    cases v <;> simp [Operator.apply]
  exact joined (.inl rfl) rfl rfl hzero hne h

theorem product {texts : List String} {values : List (Option K)} (hne : texts ≠ [])
    (h : List.Forall₂ (Denotes I .product) texts values) :
    Denotes I .product (" * ".intercalate texts) (values.foldr Operator.times.apply (some 1)) := by
  have hone : ∀ v : Option K, Operator.times.apply v (some 1) = v := by
    intro v
    cases v <;> simp [Operator.apply]
  exact joined (.inr rfl) rfl rfl hone hne h

theorem power (hs : Denotes I .atom s v) (n : Int) :
    Denotes I .power (s ++ "^" ++ n.repr) (raise v n) := by
  obtain ⟨b, hreads, rfl⟩ := hs
  have happend : (s ++ "^" ++ n.repr).toList = s.toList ++ '^' :: n.repr.toList := by
    simp
  refine ⟨.power b n, ?_, rfl⟩
  rw [happend, tokens_append_cons rfl, List.append_assoc]
  cases n with
  | ofNat n =>
    have hpower := Reads.power hreads (isWhole_repr n)
    rw [ofDigits_repr] at hpower
    show Reads .power (_ ++ ([.hat] ++ tokens n.repr.toList)) _
    rw [tokens_repr]
    exact hpower
  | negSucc n =>
    have hpower := Reads.reciprocal hreads (isWhole_repr (n + 1))
    rw [ofDigits_repr] at hpower
    have hrepr : (Int.negSucc n).repr.toList = '-' :: (n + 1).repr.toList := by
      show ("-" ++ (n + 1).repr).toList = _
      rw [String.toList_append]
      rfl
    rw [hrepr, tokens_cons rfl, tokens_repr]
    exact hpower

/-! ### Delimited operands -/

theorem tokens_closing (cs : List Char) : tokens (cs ++ [')']) = tokens cs ++ [.closing] := by
  rw [tokens_append_cons rfl]
  show tokens cs ++ [.closing] ++ [] = _
  rw [List.append_nil]

theorem group (h : Denotes I .sum s v) : Denotes I .atom ("(" ++ s ++ ")") v := by
  obtain ⟨e, hreads, hvalue⟩ := h
  refine ⟨e, ?_, hvalue⟩
  have happend : ("(" ++ s ++ ")").toList = '(' :: (s.toList ++ [')']) := by
    simp
  rw [happend, tokens_cons rfl, tokens_closing]
  exact .group hreads

/-- The tokens of a function's name and its argument. -/
theorem tokens_call {name opening : String} (hopening : opening.toList = name.toList ++ ['('])
    (hword : name.toList.all isWordChar = true) (hne : name.toList ≠ []) :
    tokens (opening ++ s ++ ")").toList =
      .word name.toList :: .opening :: tokens s.toList ++ [.closing] := by
  have happend : (opening ++ s ++ ")").toList = name.toList ++ '(' :: (s.toList ++ [')']) := by
    simp [hopening]
  rw [happend, tokens_append_cons rfl, tokens_word hword hne, tokens_closing]
  rfl

theorem sqrt (h : Denotes I .sum s v) : Denotes I .atom ("sqrt(" ++ s ++ ")") (v.bind I.sqrt) := by
  obtain ⟨e, hreads, rfl⟩ := h
  refine ⟨.sqrt e, ?_, rfl⟩
  have hopening : "sqrt(".toList = "sqrt".toList ++ ['('] := rfl
  rw [tokens_call hopening rfl (List.cons_ne_nil _ _)]
  exact .sqrt hreads

theorem call {f : AngleFunction} (h : Denotes I .sum s v) :
    Denotes I .atom (f.name ++ "(" ++ s ++ ")") (v.bind (I.call f)) := by
  obtain ⟨e, hreads, rfl⟩ := h
  refine ⟨.call f e, ?_, rfl⟩
  have hopening : (f.name ++ "(").toList = f.name.toList ++ ['('] := by simp
  rw [tokens_call hopening (by cases f <;> rfl) (by cases f <;> exact List.cons_ne_nil _ _)]
  exact .call hreads

/-! ### Words -/

theorem number {x : Float} (h : Number.isFinite x = true) (hneg : Binary.isNegative x = false) :
    Denotes I .atom (Number.text x) (some (Binary.exact x : K)) := by
  refine ⟨.number x, ?_, rfl⟩
  rw [tokens_text h hneg]
  exact .number (Number.ofText?_text h)

/-- A minus and the text of the magnitude stand for the opposite of the magnitude. -/
theorem negative {x : Float} (h : Number.isFinite x = true) (hneg : Binary.isNegative x = true) :
    Denotes I .signed (Number.text x) (some (Binary.exact x : K)) := by
  have hrank := Number.isFinite_iff.1 h
  obtain ⟨e, hreads, hvalue⟩ :=
    number (I := I) (isFinite_magnitude h) (Binary.isNegative_magnitude hrank)
  refine ⟨.negation e, ?_, ?_⟩
  · rw [text_of_isNegative h hneg, tokens_cons rfl]
    exact .negation (.ofPower (.ofAtom hreads))
  · show (e.value I).map (- ·) = _
    rw [hvalue, Binary.exact_of_isNegative hrank hneg, Rat.cast_neg]
    rfl

theorem identifier {name : String} (h : isIdentifier name = true) :
    Denotes I .atom name (some (I.name name)) := by
  rw [isIdentifier, Bool.and_eq_true, Bool.and_eq_true, decide_eq_true_iff,
    Option.isNone_iff_eq_none] at h
  obtain ⟨⟨hne, hword⟩, hnumber⟩ := h
  refine ⟨.name name, ?_, rfl⟩
  have hname := Reads.name hnumber
  rw [String.ofList_toList] at hname
  rw [tokens_word hword hne]
  exact hname

end Denotes

end Denotes

end Stepwise
