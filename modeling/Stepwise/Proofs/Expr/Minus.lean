import Mathlib.Data.List.Chain
import Stepwise.Proofs.Expr.Render

/-!
# Where the minus of a number stands

The text of a formula is made of pieces, numbers, names and signs (`toList_text`). A
number that is printed with a minus should stand at the start or behind an opening
parenthesis: behind an operator its minus would be taken for a second operator, and in
front of an exponent for the opposite of the power.

What comes first in an operand's text is found down its first operands, whereas its
group hangs on its outermost operator and on a comparison with zero:

> `isChain_render`: every minus has its place exactly if the operands that start with
> one, and stand behind an operator or under an exponent, are all given a group.

Negative zeros apart, the operands that are not are sums and differences among the later
terms of a sum (`needsGroup_or_laterTerm`).
-/

namespace Stepwise

open Infix

/-! ## Pieces of a text -/

/-- The text of an operator. -/
def Infix.Operator.text : Operator → String
  | .plus => " + "
  | .minus => " - "
  | .times => " * "
  | .divide => " / "

/-- A piece of a formula's text. -/
inductive Piece
  | number (value : Float)
  | name (name : String)
  | operator (operator : Operator)
  | exponent (exponent : Int)
  /-- An opening parenthesis behind the name of a function, if there is one. -/
  | opening (function : String)
  | closing
deriving DecidableEq

/-- Whether a number is printed with a minus, as the negative zero is. -/
def Number.hasMinus (x : Float) : Bool := (text x).toList.head? = some '-'

namespace Piece

/-- The characters of a piece. -/
def letters : Piece → List Char
  | .number x => (Number.text x).toList
  | .name n => n.toList
  | .operator op => op.text.toList
  | .exponent n => '^' :: n.repr.toList
  | .opening function => function.toList ++ ['(']
  | .closing => [')']

/-- Whether a piece is a number with a minus. -/
def isMinus : Piece → Bool
  | .number x => Number.hasMinus x
  | _ => false

/-- Whether a piece is an opening parenthesis. -/
def isOpening : Piece → Bool
  | .opening _ => true
  | _ => false

end Piece

namespace Expr

mutual

/-- The pieces of a formula's text as it stands. -/
def pieces : Expr → List Piece
  | .literal value _ => [.number value]
  | .variable q => [.name q.name]
  | .sum terms => piecesJoined .plus terms
  | .product factors => piecesJoined .times factors
  | .difference left right => left.pieces ++ .operator .minus :: right.pieces
  | .quotient left right => left.pieces ++ .operator .divide :: right.pieces
  | .sqrt operand => .opening "sqrt" :: (operand.pieces ++ [.closing])
  | .power base exponent => base.pieces ++ [.exponent exponent.toInt]
  | .group inner => .opening "" :: (inner.pieces ++ [.closing])
  | .call function argument => .opening function.name :: (argument.pieces ++ [.closing])

/-- The pieces of operands with an operator between them. -/
def piecesJoined (op : Operator) : List Expr → List Piece
  | [] => []
  | e :: rest => e.pieces ++ piecesBehind op rest

/-- The pieces of operands with an operator before each of them. -/
def piecesBehind (op : Operator) : List Expr → List Piece
  | [] => []
  | e :: rest => .operator op :: (e.pieces ++ piecesBehind op rest)

end

theorem toList_intercalate_plainTexts (op : Operator) {es : List Expr}
    (h : ∀ e ∈ es, e.plainText.toList = e.pieces.flatMap Piece.letters) :
    (op.text.intercalate (plainTexts es)).toList = (piecesJoined op es).flatMap Piece.letters := by
  induction es with
  | nil => rfl
  | cons e es ih =>
    obtain ⟨he, hes⟩ := List.forall_mem_cons.1 h
    cases es with
    | nil =>
      show (op.text.intercalate [e.plainText]).toList = (e.pieces ++ []).flatMap _
      rw [String.intercalate_singleton, he, List.append_nil]
    | cons e' es =>
      have hjoined : piecesJoined op (e :: e' :: es) =
          e.pieces ++ .operator op :: piecesJoined op (e' :: es) := rfl
      rw [hjoined, List.flatMap_append, List.flatMap_cons, ← ih hes, ← he]
      show (op.text.intercalate (e.plainText :: e'.plainText :: plainTexts es)).toList = _
      rw [String.intercalate_cons_cons, String.toList_append, String.toList_append,
        List.append_assoc]
      rfl

/-- The characters of a formula's text are those of its pieces. -/
theorem toList_plainText (e : Expr) : e.plainText.toList = e.pieces.flatMap Piece.letters := by
  induction e with
  | literal value unit => exact (List.flatMap_singleton ..).symm
  | quantity q => exact (List.flatMap_singleton ..).symm
  | sum terms ih => exact toList_intercalate_plainTexts .plus ih
  | product factors ih => exact toList_intercalate_plainTexts .times ih
  | difference left right ihl ihr =>
    simp [plainText, pieces, ihl, ihr, Piece.letters, Operator.text]
  | quotient left right ihl ihr =>
    simp [plainText, pieces, ihl, ihr, Piece.letters, Operator.text]
  | sqrt operand ih => simp [plainText, pieces, ih, Piece.letters]
  | power base exponent ih => simp [plainText, pieces, ih, Piece.letters]
  | group inner ih => simp [plainText, pieces, ih, Piece.letters]
  | call function argument ih => simp [plainText, pieces, ih, Piece.letters]

theorem toList_text (e : Expr) : e.text.toList = e.render.pieces.flatMap Piece.letters :=
  toList_plainText e.render

end Expr

/-! ## Places of a minus -/

/-- Whether the first piece is a number with a minus. -/
def startsWithMinus (ps : List Piece) : Bool := ps.head?.any Piece.isMinus

/-- Every number with a minus stands at the start, behind an opening parenthesis or
behind one of some operators, and under no exponent. -/
def MinusesFollow (ops : Operator → Prop) (ps : List Piece) : Prop :=
  ∀ before x after, ps = before ++ .number x :: after → Number.hasMinus x = true →
    (∀ p ∈ before.getLast?, p.isOpening = true ∨ ∃ op, ops op ∧ p = .operator op) ∧
      ∀ n, after.head? ≠ some (.exponent n)

/-- Every number with a minus stands at the start or behind an opening parenthesis, and
under no exponent. -/
def MinusesLead (ps : List Piece) : Prop := MinusesFollow (fun _ => False) ps

/-- Whether a piece may stand behind another, given the operators that a minus may follow. -/
def Piece.Fits (ops : Operator → Prop) (p q : Piece) : Prop :=
  (q.isMinus = true → p.isOpening = true ∨ ∃ op, ops op ∧ p = .operator op) ∧
    (p.isMinus = true → ∀ n, q ≠ .exponent n)

section Places

variable {ops : Operator → Prop} {ps qs : List Piece} {op : Operator}

theorem minusesFollow_iff : MinusesFollow ops ps ↔ ps.IsChain (Piece.Fits ops) := by
  constructor
  · intro h
    refine List.isChain_iff_forall_rel_of_append_cons_cons.2 fun p q before after heq => ⟨?_, ?_⟩
    · intro hminus
      cases q with
      | number x =>
        rw [← List.singleton_append, ← List.append_assoc] at heq
        exact (h _ x after heq hminus).1 p List.getLast?_concat
      | _ => cases hminus
    · rintro hminus n rfl
      cases p with
      | number x => exact (h before x _ heq hminus).2 n rfl
      | _ => cases hminus
  · rintro h before x after rfl hminus
    have hchain := List.isChain_iff_forall_rel_of_append_cons_cons.1 h
    refine ⟨fun p hp => ?_, fun n hn => ?_⟩
    · obtain ⟨before, rfl⟩ := List.getLast?_eq_some_iff.1 hp
      have hfits : Piece.Fits ops p (.number x) := hchain (by rw [List.append_assoc]; rfl)
      exact hfits.1 hminus
    · obtain ⟨rest, rfl⟩ := List.head?_eq_some_iff.1 hn
      have hfits : Piece.Fits ops (.number x) (.exponent n) := hchain rfl
      exact hfits.2 hminus n rfl

/-- What is neither a number with a minus nor an exponent may stand behind everything. -/
theorem Piece.fits_of_isMinus_eq_false {p q : Piece} (hminus : q.isMinus = false)
    (hexponent : ∀ n, q ≠ .exponent n) : p.Fits ops q := by
  refine ⟨fun h => ?_, fun _ => hexponent⟩
  rw [hminus] at h
  cases h

/-- What starts with a minus does so whatever follows. -/
theorem startsWithMinus_append {q : Piece} (h : q.isMinus = false) :
    startsWithMinus (ps ++ q :: qs) = startsWithMinus ps := by
  cases ps with
  | nil => exact h
  | cons p ps => rfl

/-- An operator asks nothing of what is before it, and of what is behind it that it
starts with no minus, unless one may follow the operator. -/
theorem isChain_operator : (ps ++ .operator op :: qs).IsChain (Piece.Fits ops) ↔
    ps.IsChain (Piece.Fits ops) ∧ qs.IsChain (Piece.Fits ops) ∧
      (startsWithMinus qs = true → ops op) := by
  have hbefore : ∀ p ∈ ps.getLast?, ∀ q ∈ (Piece.operator op :: qs).head?, p.Fits ops q := by
    intro p _ q hq
    cases hq
    exact Piece.fits_of_isMinus_eq_false rfl fun _ => Piece.noConfusion
  have hbehind : (∀ q ∈ qs.head?, Piece.Fits ops (.operator op) q) ↔
      (startsWithMinus qs = true → ops op) := by
    unfold startsWithMinus
    cases qs.head? with
    | none => exact iff_of_true (fun _ hq => by cases hq) (fun hminus => by cases hminus)
    | some q =>
      constructor
      · intro h hminus
        obtain hopening | ⟨op', hop, heq⟩ := (h q rfl).1 hminus
        · cases hopening
        · cases heq
          exact hop
      · rintro h q' hq'
        cases hq'
        exact ⟨fun hminus => .inr ⟨op, h hminus, rfl⟩, fun hminus => by cases hminus⟩
  rw [List.isChain_append, List.isChain_cons, hbehind]
  exact ⟨fun h => ⟨h.1, h.2.1.2, h.2.1.1⟩, fun h => ⟨h.1, ⟨h.2.2, h.2.1⟩, hbefore⟩⟩

/-- Parentheses ask nothing of what they are around. -/
theorem isChain_delimited (function : String) :
    (Piece.opening function :: (ps ++ [Piece.closing])).IsChain (Piece.Fits ops) ↔
      ps.IsChain (Piece.Fits ops) := by
  have hopening : ∀ q ∈ (ps ++ [Piece.closing]).head?, Piece.Fits ops (.opening function) q :=
    fun q _ => ⟨fun _ => .inl rfl, fun hminus => by cases hminus⟩
  have hclosing : ∀ p ∈ ps.getLast?, ∀ q ∈ [Piece.closing].head?, p.Fits ops q := by
    intro p _ q hq
    cases hq
    exact Piece.fits_of_isMinus_eq_false rfl fun _ => Piece.noConfusion
  rw [List.isChain_cons, List.isChain_append]
  exact ⟨fun h => h.2.1, fun h => ⟨hopening, h, List.isChain_singleton _, hclosing⟩⟩

/-- An exponent asks that no number with a minus is right before it. -/
theorem isChain_exponent (n : Int) : (ps ++ [Piece.exponent n]).IsChain (Piece.Fits ops) ↔
    ps.IsChain (Piece.Fits ops) ∧ ∀ p ∈ ps.getLast?, p.isMinus = false := by
  rw [List.isChain_append]
  refine and_congr_right fun _ => ⟨fun h p hp => ?_, fun h => ?_⟩
  · rw [← Bool.not_eq_true]
    exact fun hminus => (h.2 p hp (.exponent n) rfl).2 hminus n rfl
  · refine ⟨List.isChain_singleton _, fun p hp q hq => ?_⟩
    cases hq
    refine ⟨fun hminus => (by cases hminus), fun hminus => ?_⟩
    rw [h p hp] at hminus
    cases hminus

end Places

/-! ## Operands that start with a minus -/

/-- The operator before the operand of a slot, if the slot has one before it. -/
def Slot.operator? : Slot → Option Operator
  | .laterTerm => some .plus
  | .operand .multiply => some .times
  | .operand .divide => some .minus
  | .operand .literal => some .divide
  | _ => none

namespace Expr

mutual

/-- The operands of a formula that stand behind an operator, and the bases of its powers,
with their slots. -/
def behind : Expr → List (Slot × Expr)
  | .literal .. | .variable _ => []
  | .sum terms => behindLater .laterTerm terms
  | .product factors => behindLater (.operand .multiply) factors
  | .difference left right => left.behind ++ (.operand .divide, right) :: right.behind
  | .quotient left right => left.behind ++ (.operand .literal, right) :: right.behind
  | .sqrt operand => operand.behind
  | .power base _ => (.powerBase, base) :: base.behind
  | .group inner => inner.behind
  | .call _ argument => argument.behind

/-- The operands of a list behind its first, and those inside. -/
def behindLater (slot : Slot) : List Expr → List (Slot × Expr)
  | [] => []
  | e :: rest => e.behind ++ behindAll slot rest

/-- All operands of a list and those inside. -/
def behindAll (slot : Slot) : List Expr → List (Slot × Expr)
  | [] => []
  | e :: rest => (slot, e) :: (e.behind ++ behindAll slot rest)

end

/-- An operand that starts with a minus has a group in its slot, unless it stands behind
an operator that a minus may follow. -/
def IsGuarded (ops : Operator → Prop) (slot : Slot) (e : Expr) : Prop :=
  startsWithMinus e.render.pieces = true →
    e.needsGroup slot = true ∨ ∃ op ∈ slot.operator?, ops op

section Guarded

variable {ops : Operator → Prop} {slot : Slot} {ps : List Piece}

theorem pieces_fit (slot : Slot) (e : Expr) : (fit slot e.render).pieces =
    if e.needsGroup slot then .opening "" :: (e.render.pieces ++ [.closing])
    else e.render.pieces := by
  rw [fit, needsGroup_render]
  split
  · rfl
  · rfl

theorem isChain_fit {e : Expr} : (fit slot e.render).pieces.IsChain (Piece.Fits ops) ↔
    e.render.pieces.IsChain (Piece.Fits ops) := by
  rw [pieces_fit]
  split
  · exact isChain_delimited ""
  · exact Iff.rfl

theorem startsWithMinus_fit {e : Expr} : startsWithMinus (fit slot e.render).pieces = true ↔
    e.needsGroup slot = false ∧ startsWithMinus e.render.pieces = true := by
  rw [pieces_fit]
  split
  · next hneeds =>
    rw [hneeds]
    exact iff_of_false Bool.false_ne_true fun h => Bool.noConfusion h.1
  · next hneeds => exact (and_iff_right (Bool.eq_false_of_not_eq_true hneeds)).symm

/-- An operand behind an operator. -/
theorem isChain_operand {op : Operator} (hslot : slot.operator? = some op) {e : Expr} :
    (ps ++ .operator op :: (fit slot e.render).pieces).IsChain (Piece.Fits ops) ↔
      ps.IsChain (Piece.Fits ops) ∧ e.render.pieces.IsChain (Piece.Fits ops) ∧
        e.IsGuarded ops slot := by
  rw [isChain_operator, isChain_fit, startsWithMinus_fit]
  refine and_congr_right fun _ => and_congr_right fun _ => ?_
  unfold IsGuarded
  rw [hslot]
  constructor
  · intro h hminus
    by_cases hneeds : e.needsGroup slot = true
    · exact .inl hneeds
    · exact .inr ⟨op, rfl, h ⟨Bool.eq_false_of_not_eq_true hneeds, hminus⟩⟩
  · rintro h ⟨hneeds, hminus⟩
    obtain hgroup | ⟨op', hop', hops⟩ := h hminus
    · rw [hneeds] at hgroup
      cases hgroup
    · cases hop'
      exact hops

/-- Operands that each stand behind one operator. -/
theorem isChain_behind {op : Operator} (hslot : slot.operator? = some op) {es : List Expr} :
    (ps ++ piecesBehind op (renderAll slot es)).IsChain (Piece.Fits ops) ↔
      ps.IsChain (Piece.Fits ops) ∧
        ∀ e ∈ es, e.render.pieces.IsChain (Piece.Fits ops) ∧ e.IsGuarded ops slot := by
  induction es generalizing ps with
  | nil =>
    rw [renderAll, piecesBehind, List.append_nil]
    exact (and_iff_left (List.forall_mem_nil _)).symm
  | cons e es ih =>
    have hfirst : ps ++ piecesBehind op (renderAll slot (e :: es)) =
        (ps ++ .operator op :: (fit slot e.render).pieces) ++
          piecesBehind op (renderAll slot es) := by
      rw [List.append_assoc]
      rfl
    rw [hfirst, ih, isChain_operand hslot, List.forall_mem_cons, and_assoc]

/-- The base of a power. -/
theorem isChain_power {e : Expr} (n : Int) :
    ((fit .powerBase e.render).pieces ++ [Piece.exponent n]).IsChain (Piece.Fits ops) ↔
      e.render.pieces.IsChain (Piece.Fits ops) ∧ e.IsGuarded ops .powerBase := by
  rw [isChain_exponent, isChain_fit]
  refine and_congr_right fun _ => ?_
  have hguarded : e.IsGuarded ops .powerBase ↔
      (startsWithMinus e.render.pieces = true → e.needsGroup .powerBase = true) :=
    imp_congr_right fun _ => or_iff_left fun ⟨_, hop, _⟩ => nomatch hop
  rw [hguarded, pieces_fit]
  split
  · next hneeds =>
    refine iff_of_true (fun p hp => ?_) fun _ => hneeds
    rw [← List.cons_append, List.getLast?_concat] at hp
    cases hp
    rfl
  · next hneeds =>
    have hlast : (∀ p ∈ e.render.pieces.getLast?, p.isMinus = false) ↔
        startsWithMinus e.render.pieces = false := by
      -- What fits under an exponent is one piece, or has delimiters.
      have hclosing (function : String) (inner : Expr) :
          ∀ p ∈ (Piece.opening function :: (inner.pieces ++ [.closing])).getLast?,
            p.isMinus = false := by
        intro p hp
        rw [← List.cons_append, List.getLast?_concat] at hp
        cases hp
        rfl
      cases e with
      | literal value unit =>
        exact ⟨fun h => h _ rfl, fun h p hp => by cases hp; exact h⟩
      | «variable» q => exact iff_of_true (fun p hp => by cases hp; rfl) rfl
      | sqrt operand => exact iff_of_true (hclosing _ _) rfl
      | group inner => exact iff_of_true (hclosing _ _) rfl
      | call function argument => exact iff_of_true (hclosing _ _) rfl
      | _ => exact absurd rfl hneeds
    rw [hlast, ← Bool.not_eq_true]
    exact ⟨fun h hminus => absurd hminus h, fun h hminus => hneeds (h hminus)⟩

theorem forall_mem_behindAll {p : Slot × Expr → Prop} {es : List Expr} :
    (∀ q ∈ behindAll slot es, p q) ↔ ∀ e ∈ es, (∀ q ∈ e.behind, p q) ∧ p (slot, e) := by
  induction es with
  | nil => exact iff_of_true (List.forall_mem_nil _) (List.forall_mem_nil _)
  | cons e es ih =>
    rw [behindAll, List.forall_mem_cons, List.forall_mem_append, List.forall_mem_cons, ih]
    exact ⟨fun h => ⟨⟨h.2.1, h.1⟩, h.2.2⟩, fun h => ⟨h.1.2, h.1.1, h.2⟩⟩

theorem forall_mem_behindLater {p : Slot × Expr → Prop} {es : List Expr}
    (h : ∀ e ∈ es, (∀ q ∈ e.behind, p q) ∧ p (slot, e)) : ∀ q ∈ behindLater slot es, p q := by
  cases es with
  | nil => exact List.forall_mem_nil _
  | cons e es =>
    obtain ⟨he, hes⟩ := List.forall_mem_cons.1 h
    exact List.forall_mem_append.2 ⟨he.1, forall_mem_behindAll.2 hes⟩

/-- Operands that are joined by one operator. -/
theorem isChain_joined {op : Operator} (hslot : slot.operator? = some op) {e : Expr}
    {first : Slot} {es : List Expr}
    (h : ∀ t ∈ e :: es, t.render.pieces.IsChain (Piece.Fits ops) ↔
      ∀ q ∈ t.behind, q.2.IsGuarded ops q.1) :
    ((fit first e.render).pieces ++ piecesBehind op (renderAll slot es)).IsChain
        (Piece.Fits ops) ↔
      ∀ q ∈ e.behind ++ behindAll slot es, q.2.IsGuarded ops q.1 := by
  obtain ⟨he, hes⟩ := List.forall_mem_cons.1 h
  rw [isChain_behind hslot, isChain_fit, he, List.forall_mem_append, forall_mem_behindAll]
  refine and_congr_right fun _ => forall₂_congr fun t ht => ?_
  rw [hes t ht]

/-- **Every minus has its place** exactly if every operand that starts with one is guarded. -/
theorem isChain_render (ops : Operator → Prop) (e : Expr) :
    e.render.pieces.IsChain (Piece.Fits ops) ↔ ∀ q ∈ e.behind, q.2.IsGuarded ops q.1 := by
  induction e with
  | literal value unit => exact iff_of_true (List.isChain_singleton _) (List.forall_mem_nil _)
  | quantity q => exact iff_of_true (List.isChain_singleton _) (List.forall_mem_nil _)
  | sum terms ih =>
    cases terms with
    | nil => exact iff_of_true List.isChain_nil (List.forall_mem_nil _)
    | cons e es => exact isChain_joined rfl ih
  | product factors ih =>
    cases factors with
    | nil => exact iff_of_true List.isChain_nil (List.forall_mem_nil _)
    | cons e es => exact isChain_joined rfl ih
  | difference left right ihl ihr =>
    rw [behind, List.forall_mem_append, List.forall_mem_cons, ← ihl, ← ihr, render, pieces,
      isChain_operand rfl, isChain_fit, and_comm (a := right.render.pieces.IsChain _)]
  | quotient left right ihl ihr =>
    rw [behind, List.forall_mem_append, List.forall_mem_cons, ← ihl, ← ihr, render, pieces,
      isChain_operand rfl, isChain_fit, and_comm (a := right.render.pieces.IsChain _)]
  | sqrt operand ih => exact (isChain_delimited _).trans ih
  | power base exponent ih =>
    rw [behind, List.forall_mem_cons, ← ih, render, pieces, isChain_power, and_comm]
  | group inner ih => exact (isChain_delimited _).trans ih
  | call function argument ih => exact (isChain_delimited _).trans ih

end Guarded

/-! ## Well-formed formulas -/

/-- A formula's first operand, down the first terms of sums and the left operands of
differences. -/
def lead : Expr → Expr
  | .sum (term :: _) => term.lead
  | .difference left _ => left.lead
  | e => e

/-- The first operand of a formula is a number below zero. -/
def LeadsBelowZero (e : Expr) : Prop := ∃ x unit, e.lead = .literal x unit ∧ x < 0.0

/-- Whether a formula is a sum or a difference. -/
def isAdditive : Expr → Bool
  | .sum _ | .difference .. => true
  | _ => false

end Expr

/-- Whether a slot has no place for a sum, a difference or a number below zero. -/
def Slot.isTight : Slot → Bool
  | .powerBase | .operand .literal | .operand .multiply | .operand .divide => true
  | _ => false

theorem Number.isNegative_of_hasMinus {x : Float} (h : isFinite x = true)
    (hminus : hasMinus x = true) : Binary.isNegative x = true := by
  have hhead : (text x).toList.head? = some '-' := of_decide_eq_true hminus
  rw [text_of_isFinite h] at hhead
  split at hhead
  · next hneg => exact hneg
  · obtain ⟨whole, fraction, hnumeral, -⟩ :=
      Decimal.isNumeral_text (Decimal.shortest (Binary.rank x))
    exact absurd (hnumeral.forall_mem '-' (List.mem_of_mem_head? hhead)) (by decide)

theorem Number.hasMinus_of_isNegative {x : Float} (h : isFinite x = true)
    (hneg : Binary.isNegative x = true) : hasMinus x = true := by
  unfold hasMinus
  rw [text_of_isFinite h, if_pos hneg]
  rfl

namespace Expr

/-- The first operand of a sum or a difference is never given a group. -/
theorem needsGroup_subtraction (e : Expr) : e.needsGroup (.operand .subtraction) = false := by
  cases e with
  | literal value unit =>
    show decide (Rank.subtraction.level < (literal value unit).rank.level) = false
    unfold rank
    dsimp only
    split
    · rfl
    · rfl
  | _ => rfl

theorem startsWithMinus_joined (op : Operator) (slot first : Slot) (e : Expr) (es : List Expr) :
    startsWithMinus ((fit first e.render).pieces ++ piecesBehind op (renderAll slot es)) =
      startsWithMinus (fit first e.render).pieces := by
  cases es with
  | nil =>
    rw [renderAll, piecesBehind, List.append_nil]
  | cons e' es => exact startsWithMinus_append rfl

/-- What starts with no minus, and whose first operand is no number. -/
theorem startsWithMinus_iff_of_false {e : Expr} (hstarts : startsWithMinus e.render.pieces = false)
    (hlead : ∀ x unit, e.lead ≠ .literal x unit) :
    startsWithMinus e.render.pieces = true ↔ e.LeadsBelowZero := by
  refine iff_of_false (ne_true_of_eq_false hstarts) ?_
  rintro ⟨x, unit, heq, -⟩
  exact hlead x unit heq

theorem LeadsBelowZero.literal_or_isAdditive {e : Expr} (h : e.LeadsBelowZero) :
    (∃ x unit, e = .literal x unit ∧ x < 0.0) ∨ e.isAdditive = true := by
  obtain ⟨x, unit, hlead, hx⟩ := h
  cases e with
  | literal value unit' => exact .inl ⟨x, unit, hlead, hx⟩
  | sum terms => exact .inr rfl
  | difference left right => exact .inr rfl
  | _ => cases hlead

theorem needsGroup_of_isTight {e : Expr} (h : e.LeadsBelowZero) {slot : Slot}
    (hslot : slot.isTight = true) : e.needsGroup slot = true := by
  rcases h.literal_or_isAdditive with ⟨x, unit, rfl, hx⟩ | hadditive
  · have hrank : (literal x unit).rank = .subtraction := if_pos hx
    rcases slot with loosest | _ | _
    · show decide (loosest.level < (literal x unit).rank.level) = true
      rw [hrank]
      cases loosest <;> first | rfl | cases hslot
    · cases hslot
    · show decide (Rank.literal.level < (literal x unit).rank.level) = true
      rw [hrank]
      rfl
  · rcases slot with loosest | _ | _
    · cases e <;> cases hadditive <;> cases loosest <;> first | rfl | cases hslot
    · cases hslot
    · cases e <;> cases hadditive <;> rfl

/-- A first operand in a tight slot hides its minus in a group. -/
theorem startsWithMinus_fit_of_isTight {e : Expr} {slot : Slot} (hslot : slot.isTight = true)
    (h : startsWithMinus e.render.pieces = true → e.LeadsBelowZero) :
    startsWithMinus (fit slot e.render).pieces = false := by
  rw [← Bool.not_eq_true, startsWithMinus_fit]
  rintro ⟨hneeds, hminus⟩
  rw [needsGroup_of_isTight (h hminus) hslot] at hneeds
  cases hneeds

/-- **A well-formed formula starts with a minus** exactly if its first operand is a number
below zero. -/
theorem startsWithMinus_iff {e : Expr} (h : e.isWellFormed = true) :
    startsWithMinus e.render.pieces = true ↔ e.LeadsBelowZero := by
  induction e with
  | literal value unit =>
    rw [isWellFormed, Bool.and_eq_true, Bool.not_eq_true'] at h
    have hneg := Binary.lt_zero_iff (Number.isFinite_iff.1 h.1)
    constructor
    · intro hminus
      have hsign := Number.isNegative_of_hasMinus h.1 hminus
      refine ⟨value, unit, rfl, hneg.2 ⟨hsign, fun hrank => ?_⟩⟩
      rw [hsign, hrank] at h
      cases h.2
    · rintro ⟨x, unit', hlead, hx⟩
      cases hlead
      exact Number.hasMinus_of_isNegative h.1 (hneg.1 hx).1
  | quantity q => exact startsWithMinus_iff_of_false rfl fun _ _ h => by cases h
  | sum terms ih =>
    rw [isWellFormed, Bool.and_eq_true, areWellFormed_iff] at h
    cases terms with
    | nil => cases h.1
    | cons e es =>
      have he := ih e List.mem_cons_self (h.2 e List.mem_cons_self)
      show startsWithMinus (_ ++ piecesBehind .plus _) = true ↔ e.LeadsBelowZero
      rw [startsWithMinus_joined, startsWithMinus_fit, he]
      exact and_iff_right (needsGroup_subtraction e)
  | product factors ih =>
    rw [isWellFormed, Bool.and_eq_true, areWellFormed_iff] at h
    cases factors with
    | nil => cases h.1
    | cons e es =>
      have he := ih e List.mem_cons_self (h.2 e List.mem_cons_self)
      refine startsWithMinus_iff_of_false ?_ fun _ _ h => by cases h
      exact (startsWithMinus_joined ..).trans (startsWithMinus_fit_of_isTight rfl he.1)
  | difference left right ihl ihr =>
    rw [isWellFormed, Bool.and_eq_true] at h
    show startsWithMinus (_ ++ _ :: _) = true ↔ left.LeadsBelowZero
    rw [startsWithMinus_append rfl, startsWithMinus_fit, ihl h.1]
    exact and_iff_right (needsGroup_subtraction left)
  | quotient left right ihl ihr =>
    rw [isWellFormed, Bool.and_eq_true] at h
    refine startsWithMinus_iff_of_false ?_ fun _ _ h => by cases h
    exact (startsWithMinus_append rfl).trans (startsWithMinus_fit_of_isTight rfl (ihl h.1).1)
  | sqrt operand ih => exact startsWithMinus_iff_of_false rfl fun _ _ h => by cases h
  | power base exponent ih =>
    refine startsWithMinus_iff_of_false ?_ fun _ _ h => by cases h
    exact (startsWithMinus_append rfl).trans (startsWithMinus_fit_of_isTight rfl (ih h).1)
  | group inner ih => exact startsWithMinus_iff_of_false rfl fun _ _ h => by cases h
  | call function argument ih => exact startsWithMinus_iff_of_false rfl fun _ _ h => by cases h

/-- Of the slots behind operators and under exponents only those of later terms are not tight. -/
theorem forall_mem_behind {e : Expr} (h : e.isWellFormed = true) :
    ∀ q ∈ e.behind, q.2.isWellFormed = true ∧ (q.1 = .laterTerm ∨ q.1.isTight = true) := by
  induction e with
  | literal value unit => exact List.forall_mem_nil _
  | quantity q => exact List.forall_mem_nil _
  | sum terms ih =>
    rw [isWellFormed, Bool.and_eq_true, areWellFormed_iff] at h
    exact forall_mem_behindLater fun t ht => ⟨ih t ht (h.2 t ht), h.2 t ht, .inl rfl⟩
  | product factors ih =>
    rw [isWellFormed, Bool.and_eq_true, areWellFormed_iff] at h
    exact forall_mem_behindLater fun t ht => ⟨ih t ht (h.2 t ht), h.2 t ht, .inr rfl⟩
  | difference left right ihl ihr =>
    rw [isWellFormed, Bool.and_eq_true] at h
    refine List.forall_mem_append.2 ⟨ihl h.1, List.forall_mem_cons.2 ⟨?_, ihr h.2⟩⟩
    exact ⟨h.2, .inr rfl⟩
  | quotient left right ihl ihr =>
    rw [isWellFormed, Bool.and_eq_true] at h
    refine List.forall_mem_append.2 ⟨ihl h.1, List.forall_mem_cons.2 ⟨?_, ihr h.2⟩⟩
    exact ⟨h.2, .inr rfl⟩
  | sqrt operand ih => exact ih h
  | power base exponent ih => exact List.forall_mem_cons.2 ⟨⟨h, .inr rfl⟩, ih h⟩
  | group inner ih => exact ih h
  | call function argument ih => exact ih h

/-- What starts with a minus in a well-formed formula and is not given a group is a sum or
a difference, and a later term of a sum. -/
theorem needsGroup_or_laterTerm {e : Expr} (h : e.isWellFormed = true) {q : Slot × Expr}
    (hq : q ∈ e.behind) (hminus : startsWithMinus q.2.render.pieces = true) :
    q.2.needsGroup q.1 = true ∨ q.1 = .laterTerm ∧ q.2.isAdditive = true := by
  obtain ⟨slot, t⟩ := q
  obtain ⟨ht, rfl | htight⟩ := forall_mem_behind h _ hq
  · have hlead := (startsWithMinus_iff ht).1 hminus
    rcases hlead.literal_or_isAdditive with ⟨x, unit, rfl, hx⟩ | hadditive
    · exact .inl (decide_eq_true hx)
    · exact .inr ⟨rfl, hadditive⟩
  · exact .inl (needsGroup_of_isTight ((startsWithMinus_iff ht).1 hminus) htight)

theorem minusesLead_iff (e : Expr) : MinusesLead e.render.pieces ↔
    ∀ q ∈ e.behind, startsWithMinus q.2.render.pieces = true → q.2.needsGroup q.1 = true := by
  refine minusesFollow_iff.trans ((isChain_render _ e).trans ?_)
  refine forall₂_congr fun q _ => imp_congr_right fun _ => or_iff_left ?_
  rintro ⟨op, -, hop⟩
  exact hop

/-- **A minus leads** in a formula's text exactly if every operand whose text starts with
one, and which stands behind an operator or under an exponent, is given a group. In a
well-formed formula a minus follows no operator but a plus, and no number with one is the
base of a power; all of them lead exactly if no sum or difference whose first operand is
below zero is a later term of a sum. -/
theorem minus_leads_iff (e : Expr) :
    e.text.toList = e.render.pieces.flatMap Piece.letters ∧
    (MinusesLead e.render.pieces ↔
      ∀ q ∈ e.behind, startsWithMinus q.2.render.pieces = true → q.2.needsGroup q.1 = true) ∧
    (e.isWellFormed = true →
      MinusesFollow (· = .plus) e.render.pieces ∧
      (MinusesLead e.render.pieces ↔
        ∀ t, (.laterTerm, t) ∈ e.behind → t.isAdditive = true → ¬ t.LeadsBelowZero)) := by
  refine ⟨toList_text e, minusesLead_iff e, fun h => ⟨?_, ?_⟩⟩
  · refine minusesFollow_iff.2 ((isChain_render _ e).2 fun q hq hminus => ?_)
    refine (needsGroup_or_laterTerm h hq hminus).imp_right fun ⟨hslot, _⟩ => ?_
    rw [hslot]
    exact ⟨.plus, rfl, rfl⟩
  · rw [minusesLead_iff]
    constructor
    · intro hguarded t ht hadditive hlead
      have hminus := (startsWithMinus_iff (forall_mem_behind h _ ht).1).2 hlead
      have hneeds : t.needsGroup .laterTerm = true := hguarded _ ht hminus
      cases t <;> cases hadditive <;> cases hneeds
    · intro hlater q hq hminus
      refine (needsGroup_or_laterTerm h hq hminus).resolve_right ?_
      obtain ⟨slot, t⟩ := q
      rintro ⟨rfl, hadditive⟩
      exact hlater t hq hadditive ((startsWithMinus_iff (forall_mem_behind h _ hq).1).1 hminus)

/-- A first term below zero, and a factor below zero behind an operator. -/
def signed : Expr :=
  .difference (.sum [.number (-3.0), .variable ⟨"x", none⟩])
    (.product [.variable ⟨"y", none⟩, .number (-2.0)])

/-- A first term that is negative stands as it is, a factor gets a group. -/
theorem minus_leads_signed : signed.isWellFormed = true ∧
    signed.text = "-3 + x - y * (-2)" ∧ MinusesLead signed.render.pieces := by
  have hwell : signed.isWellFormed = true := by decide +kernel
  have hlater : ∀ t, (.laterTerm, t) ∈ signed.behind → t.isAdditive = true →
      ¬ t.LeadsBelowZero := by
    intro t ht hadditive
    rcases ht with _ | ⟨_, _ | ⟨_, _ | ⟨_, ht⟩⟩⟩
    · cases hadditive
    · cases ht
  exact ⟨hwell, by decide +kernel, ((minus_leads_iff signed).2.2 hwell).2.2 hlater⟩

/-- A sum that begins with a number below zero, as the second term of a sum. -/
def nested : Expr := .sum [.number 1.0, .sum [.number (-3.0), .number 2.0]]

/-- A sum is given no group as a term of a sum, whatever it begins with. -/
theorem minus_behind_plus : nested.isWellFormed = true ∧ nested.text = "1 + -3 + 2" ∧
    ¬ MinusesLead nested.render.pieces := by
  refine ⟨by decide +kernel, by decide +kernel, fun hlead => ?_⟩
  have hminus : Number.hasMinus (-3.0) = true := by decide +kernel
  obtain ⟨hplace, -⟩ := hlead [.number 1.0, .operator .plus] (-3.0) [.operator .plus, .number 2.0]
    rfl hminus
  rcases hplace _ rfl with hopening | ⟨_, hop, _⟩
  · cases hopening
  · exact hop

end Expr

end Stepwise
