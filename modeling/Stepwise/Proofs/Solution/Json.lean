import Mathlib.Data.List.Forall2
import Stepwise.Proofs.Expr.Json
import Stepwise.Proofs.Session.Json
import Stepwise.Solution.Json

/-!
# Steps written and read back

A step names its kind, and its parts are read back one by one: formulas by induction on
them, lists item by item, and what a button or a unit leaves out as empty or absent.

> `ofJson?_toJson`: a step of finite numbers is read back from its JSON, so different
> steps of finite numbers differ in it; and any library reads it back from the text
> that it prints of it.

What is not finite has no notation in JSON and would be read as nothing, so a step must
be finite (`IsFinite`) in every number that it shows. In a list of steps each finite
step is read back from its own item (`lists_listToJson`).
-/

namespace Stepwise

/-- An input whose value is finite is read back with it. -/
theorem Given.reads_toJson {g : Given} (hg : Number.isFinite g.value = true) :
    ofJson? g.toJson = some g := by
  show ((Quantity.ofJson? g.quantity.toJson).bind fun quantity =>
    (Json.ofFloat g.value).number?.bind fun value =>
      some ({ quantity, value } : Given)) = _
  rw [Quantity.reads_toJson, Json.number?_ofFloat hg]
  rfl

theorem Given.fits_any_toJson (g : Given) : Json.Fits .any g.toJson :=
  ⟨rfl, ⟨_, rfl, g.quantity.fits_any_toJson⟩, ⟨_, rfl, Json.fits_any_ofFloat g.value⟩, rfl⟩

namespace Step

/-- The numbers in a step. -/
def numbers : Step → List Float
  | .error _ => []
  | .solved s => s.given.map (·.value) ++ s.equation.literals ++ s.result :: s.substituted.literals
  | .hint h => h.buttons.flatMap fun b => b.set.entries.map (·.2)
  | .summary values => values.entries.map (·.2)

/-- A step without infinities and values that are no numbers. -/
def IsFinite (s : Step) : Prop := ∀ x ∈ s.numbers, Number.isFinite x = true

instance (s : Step) : Decidable s.IsFinite :=
  inferInstanceAs (Decidable (∀ x ∈ s.numbers, Number.isFinite x = true))

/-- **A step of finite numbers is read back.** -/
theorem reads_toJson {s : Step} (hs : s.IsFinite) : ofJson? s.toJson = some s := by
  cases s with
  | error message => rfl
  | solved s =>
    obtain ⟨title, description, given, unknown, equation, result, substituted⟩ := s
    obtain ⟨hleft, hright⟩ := List.forall_mem_append.1 hs
    obtain ⟨hgiven, hequation⟩ := List.forall_mem_append.1 hleft
    obtain ⟨hresult, hsubstituted⟩ := List.forall_mem_cons.1 hright
    have hinputs : ∀ g ∈ given, Given.ofJson? g.toJson = some g :=
      fun g hg => Given.reads_toJson (hgiven g.value (List.mem_map_of_mem hg))
    show ((Json.array (given.map Given.toJson)).items?.bind (·.mapM Given.ofJson?)).bind
      (fun given =>
      (Quantity.ofJson? unknown.toJson).bind fun unknown =>
      (Expr.ofPart? equation.toJson).bind fun equation =>
      (Json.ofFloat result).number?.bind fun result =>
      (Expr.ofPart? substituted.toJson).bind fun substituted =>
        some (Step.solved ⟨title, description, given, unknown, equation, result, substituted⟩)) = _
    rw [Json.items?_map hinputs, Quantity.reads_toJson, Expr.ofPart?,
      Expr.read?_toJson hequation, Json.number?_ofFloat hresult, Expr.ofPart?,
      Expr.read?_toJson hsubstituted]
    rfl
  | hint h =>
    obtain ⟨message, buttons⟩ := h
    have hbuttons : ∀ b ∈ buttons, Button.ofJson? b.toJson = some b := by
      intro b hb
      refine Button.reads_toJson fun entry hentry => hs entry.2 ?_
      exact List.mem_flatMap.2 ⟨b, hb, List.mem_map_of_mem hentry⟩
    show ((Json.array (buttons.map Button.toJson)).items?.bind (·.mapM Button.ofJson?)).bind
      (fun buttons => some (Step.hint ⟨message, buttons⟩)) = _
    rw [Json.items?_map hbuttons]
    rfl
  | summary values =>
    show (Json.ofBindings values).bindings?.bind (some <| Step.summary ·) = _
    rw [Json.bindings?_ofBindings fun entry hentry => hs entry.2 (List.mem_map_of_mem hentry)]
    rfl

/-- How a step is read. -/
def decoder : Json.Decoder Step := { shape := .any, ofJson? }

/-- The text of every step is JSON. -/
theorem fits_any_toJson (s : Step) : Json.Fits .any s.toJson := by
  cases s with
  | error message => exact ⟨rfl, ⟨_, rfl, rfl⟩, ⟨_, rfl, rfl⟩, rfl⟩
  | solved s =>
    have hgiven : Json.Fits .any (.array (s.given.map Given.toJson)) := by
      refine Json.fits_any_array fun item hitem => ?_
      obtain ⟨g, -, rfl⟩ := List.mem_map.1 hitem
      exact g.fits_any_toJson
    exact ⟨rfl, ⟨_, rfl, rfl⟩, ⟨_, rfl, rfl⟩, ⟨_, rfl, rfl⟩, ⟨_, rfl, hgiven⟩,
      ⟨_, rfl, s.unknown.fits_any_toJson⟩, ⟨_, rfl, s.equation.fits_any_toJson⟩,
      ⟨_, rfl, Json.fits_any_ofFloat s.result⟩, ⟨_, rfl, s.substituted.fits_any_toJson⟩, rfl⟩
  | hint h =>
    have hbuttons : Json.Fits .any (.array (h.buttons.map Button.toJson)) := by
      refine Json.fits_any_array fun item hitem => ?_
      obtain ⟨b, -, rfl⟩ := List.mem_map.1 hitem
      exact b.fits_any_toJson
    exact ⟨rfl, ⟨_, rfl, rfl⟩, ⟨_, rfl, rfl⟩, ⟨_, rfl, hbuttons⟩, rfl⟩
  | summary values =>
    exact ⟨rfl, ⟨_, rfl, rfl⟩, ⟨_, rfl, Json.fits_any_ofBindings values⟩, rfl⟩

/-- **A step is read back from its JSON**, so of two different steps the JSON is not the
same. A library that reads what it prints reads the step back from its text too,
unless that is nested deeper than texts of unknown shape are read. -/
theorem ofJson?_toJson (s : Step) (hs : s.IsFinite) :
    ofJson? s.toJson = some s ∧
    (∀ t : Step, t.IsFinite → s ≠ t → s.toJson ≠ t.toJson) ∧
    ∀ json : Json.Library, json.ReadsBack → s.toJson.depth ≤ Json.maxDepth →
      json.read decoder (json.print s.toJson) = .ok s := by
  refine ⟨reads_toJson hs, ?_, ?_⟩
  · intro t ht hne heq
    have hother := reads_toJson ht
    rw [← heq, reads_toJson hs] at hother
    exact hne (Option.some.inj hother)
  · intro json hjson hdepth
    exact hjson.read_print decoder _ s s.fits_any_toJson hdepth (reads_toJson hs)

/-- A step with formulas in formulas, with units and without. -/
def nestedStep : Step := .solved {
  title := "Displacement"
  description := "From \"rest\""
  given := [⟨⟨"t", some "s"⟩, 2.5⟩, ⟨⟨"v", none⟩, -0.0⟩]
  unknown := ⟨"d", some "m"⟩
  equation := .sum [.variable ⟨"d", some "m"⟩,
    .group (.product [.literal 0.5 none, .power (.variable ⟨"t", none⟩) 2])]
  result := 1e22
  substituted := .quotient (.call .sin (.sqrt (.literal 4.0 (some "deg"))))
    (.difference (.literal 0.1 none) (.literal (-3.0) none)) }

/-- A hint with a button that has nothing but its text, and one that sets a value. -/
def plainHint : Step := .hint {
  message := "Which?"
  buttons := [{ text := "Neither" },
    { text := "Both", set := .ofList [("t", 5.0)], hints := ["ignore"], primary := true }] }

/-- Both steps are read back, one from its JSON and one from a text, and are written
differently: what the button leaves empty is missing. -/
theorem ofJson?_toJson_nested :
    (nestedStep.IsFinite ∧ plainHint.IsFinite) ∧
    ofJson? nestedStep.toJson = some nestedStep ∧
    nestedStep.toJson ≠ plainHint.toJson ∧
    Json.Library.standard.read decoder (Json.Library.standard.print plainHint.toJson) =
      .ok plainHint ∧
    (Button.toJson { text := "Neither" }).text = "\x7b\"text\":\"Neither\"\x7d" := by
  have hnested : nestedStep.IsFinite := by decide +kernel
  have hplain : plainHint.IsFinite := by decide +kernel
  exact ⟨⟨hnested, hplain⟩, (ofJson?_toJson nestedStep hnested).1,
    (ofJson?_toJson nestedStep hnested).2.1 plainHint hplain nofun,
    (ofJson?_toJson plainHint hplain).2.2 .standard Json.readsBack_standard (by decide +kernel),
    by decide +kernel⟩

/-! ## Lists of steps -/

/-- Whether JSON is a list with an item for each of some steps, in their order, from
which the step is read back if it is finite. -/
def Lists (json : Json) (steps : List Step) : Prop :=
  ∃ items, json = .array items ∧
    List.Forall₂ (fun s item => s.IsFinite → ofJson? item = some s) steps items

/-- **Every finite step is read back from the JSON of the list it stands in.** -/
theorem lists_listToJson (steps : List Step) : Lists (listToJson steps) steps := by
  refine ⟨steps.map toJson, rfl, ?_⟩
  rw [List.forall₂_map_right_iff, List.forall₂_same]
  exact fun s _ => reads_toJson

/-- Finite steps are recovered from the JSON that lists them. -/
theorem Lists.listOfJson?_eq {json : Json} {steps : List Step} (h : Lists json steps)
    (hfinite : ∀ s ∈ steps, s.IsFinite) : listOfJson? json = some steps := by
  obtain ⟨items, rfl, hitems⟩ := h
  show items.mapM ofJson? = some steps
  induction hitems with
  | nil => rfl
  | cons hitem _ ih =>
    obtain ⟨hhead, htail⟩ := List.forall_mem_cons.1 hfinite
    rw [List.mapM_cons, hitem hhead, ih htail]
    rfl

/-- How a list of steps is read. -/
def listDecoder : Json.Decoder (List Step) := { shape := .any, ofJson? := listOfJson? }

theorem fits_any_listToJson (steps : List Step) : Json.Fits .any (listToJson steps) := by
  refine Json.fits_any_array fun item hitem => ?_
  obtain ⟨s, -, rfl⟩ := List.mem_map.1 hitem
  exact s.fits_any_toJson

end Step

end Stepwise
