import Stepwise.Proofs.Catalog.Registration
import Stepwise.Proofs.Solution.Repeated
import Stepwise.Proofs.Solution.Vocabulary

/-!
# Catalogs with nothing in common

Imported catalogs share one table of values, one search for the next relation and one queue
of defaults. A move of one starts the search of all anew, and the defaults of one wait for
the relations of all. If some of them mention no name that the others mention, this changes
when their moves are made, but not which:

> `nextMove?_filter_or`: the next move of some catalogs is the next move of the selected
> ones among them, or binds a name that a catalog left out mentions.

A move of the second kind binds nothing that the selected catalogs read. So a run of all
holds a run of the selected ones, step by step (`Run.filter_bindsIn`), and a derivation of all
that ends well holds theirs (`derive_filter`).
-/

namespace Stepwise

/-- Whether a step binds a name of a list. -/
def Step.bindsIn (names : List String) (step : Step) : Bool :=
  step.bound?.any fun entry => names.contains entry.1

theorem Step.bindsIn_of_bound? {names : List String} {step : Step} {name : String} {value : Float}
    (h : step.bound? = some (name, value)) : step.bindsIn names = names.contains name := by
  unfold bindsIn
  rw [h]
  rfl

theorem Step.filter_bindsIn_of_forall {names : List String} {steps : List Step}
    (h : ∀ step ∈ steps, step.bound? = none) : steps.filter (·.bindsIn names) = [] := by
  rw [List.filter_eq_nil_iff]
  intro step hstep
  unfold bindsIn
  rw [h step hstep]
  exact Bool.false_ne_true

variable {imports : List Catalog} {select : Catalog → Bool} {assuming : Bool}
  {b b' final : Bindings} {steps : List Step} {names : List String}

/-! ## The next move of selected catalogs -/

theorem nextRelation?_eq_findSome? (imports : List Catalog) (b : Bindings) :
    nextRelation? imports b = imports.findSome? fun c => nextRelation? [c] b := by
  unfold nextRelation? relationsOf
  rw [List.find?_flatMap, List.map_findSome?]
  simp only [List.flatMap_cons, List.flatMap_nil, List.append_nil, Function.comp_def]

theorem nextImplicit?_eq_findSome? (imports : List Catalog) (b : Bindings) :
    nextImplicit? imports b = imports.findSome? fun c => nextImplicit? [c] b := by
  unfold nextImplicit? implicitsOf
  rw [List.find?_flatMap, List.map_findSome?]
  simp only [List.flatMap_cons, List.flatMap_nil, List.append_nil, Function.comp_def]

/-- What the catalogs can bind they mention. -/
theorem pending_subset_vocabularyOf (imports : List Catalog) (b : Bindings) :
    pending imports b ⊆ vocabularyOf imports := by
  intro name hname
  rw [mem_vocabularyOf_iff]
  rcases List.mem_append.1 (List.mem_filter.1 hname).1 with hname | hname
  · obtain ⟨r, hr, rfl⟩ := List.mem_map.1 hname
    exact .inl ⟨r, hr, Relation.mem_vocabulary_iff.2 (.inl rfl)⟩
  · obtain ⟨i, hi, rfl⟩ := List.mem_map.1 hname
    exact .inr ⟨i, hi, rfl⟩

/-- A search through the catalogs, one by one, for a move that each of them would make hits
upon a move of the selected ones, or upon a name that a catalog left out mentions. -/
theorem filter_or_of_search (search : List Catalog → Option Move) {m : Move}
    (hsearch : ∀ l, search l = l.findSome? fun c => search [c])
    (htarget : ∀ c m, search [c] = some m → m.target ∈ pending [c] b)
    (h : search imports = some m) :
    search (imports.filter select) = some m ∨
      ∃ c ∈ imports, select c = false ∧ m.target ∈ c.vocabulary := by
  rw [hsearch] at h
  rcases findSome?_filter_or select h with h | ⟨c, hc, hselect, h⟩
  · exact .inl ((hsearch _).trans h)
  · have hmentions := pending_subset_vocabularyOf _ _ (htarget c m h)
    have hsingle : vocabularyOf [c] = c.vocabulary := List.append_nil _
    exact .inr ⟨c, hc, hselect, hsingle ▸ hmentions⟩

/-- **The next move is that of the selected catalogs, or it is of a catalog left out.** -/
theorem nextMove?_filter_or (select : Catalog → Bool) {m : Move}
    (h : nextMove? imports assuming b = some m) :
    nextMove? (imports.filter select) assuming b = some m ∨
      ∃ c ∈ imports, select c = false ∧ m.target ∈ c.vocabulary := by
  rcases Option.or_eq_some_iff.1 h with h | ⟨hnone, h⟩
  · refine (filter_or_of_search (nextRelation? · b) (nextRelation?_eq_findSome? · b)
      (fun _ _ => nextRelation?_target) h).imp_left fun h => ?_
    exact Option.or_eq_some_iff.2 (.inl h)
  · cases assuming with
    | false => cases h
    | true =>
      -- No relation of the selected catalogs can be used either.
      rw [nextRelation?_eq_findSome?] at hnone
      have hnone := findSome?_filter_eq_none select hnone
      rw [← nextRelation?_eq_findSome?] at hnone
      refine (filter_or_of_search (nextImplicit? · b) (nextImplicit?_eq_findSome? · b)
        (fun _ _ => nextImplicit?_target) h).imp_left fun h => ?_
      exact Option.or_eq_some_iff.2 (.inr ⟨hnone, h⟩)

/-- Where no catalog has a move, no selected one has. -/
theorem nextMove?_filter_of_none (h : nextMove? imports assuming b = none) :
    nextMove? (imports.filter select) assuming b = none := by
  rw [nextMove?_eq_none_iff] at h ⊢
  refine ⟨fun r hr => ?_, fun hassuming i hi => ?_⟩
  · obtain ⟨c, hc, hr⟩ := List.mem_flatMap.1 hr
    exact h.1 r (List.mem_flatMap.2 ⟨c, (List.mem_filter.1 hc).1, hr⟩)
  · obtain ⟨c, hc, hi⟩ := List.mem_flatMap.1 hi
    exact h.2 hassuming i (List.mem_flatMap.2 ⟨c, (List.mem_filter.1 hc).1, hi⟩)

/-! ## The run of selected catalogs -/

/-- The selected among some catalogs mention names of a list alone, and the others none of it. -/
structure Separates (names : List String) (select : Catalog → Bool) (imports : List Catalog) :
    Prop where
  selected : ∀ c ∈ imports, select c = true → c.vocabulary ⊆ names
  others : ∀ c ∈ imports, select c = false → ∀ name ∈ c.vocabulary, name ∉ names

theorem Separates.vocabularyOf_subset (h : Separates names select imports) :
    vocabularyOf (imports.filter select) ⊆ names := by
  intro name hname
  obtain ⟨c, hc, hname⟩ := List.mem_flatMap.1 hname
  obtain ⟨hc, hselect⟩ := List.mem_filter.1 hc
  exact h.selected c hc hselect hname

theorem Bindings.AgreeOn.insert (h : AgreeOn names b b') (name : String) (value : Float) :
    AgreeOn names (b.insert name value) (b'.insert name value) := by
  intro n hn
  rw [get?_insert, get?_insert, h n hn]

/-- **A run of all holds a run of the selected catalogs**: its steps that bind their names,
from any values that agree on these. -/
theorem Run.filter_bindsIn (hsound : ∀ c ∈ imports, c.fault? = none)
    (hseparates : Separates names select imports) (h : Run imports assuming b steps final)
    (hagree : b.AgreeOn names b') :
    ∃ final', Run (imports.filter select) assuming b' (steps.filter (·.bindsIn names)) final' ∧
      final.AgreeOn names final' := by
  induction h generalizing b' with
  | stay b => exact ⟨b', .stay b', hagree⟩
  | @move b final m step value steps hnext hperform hrun ih =>
    have hbinds : step.bindsIn names = names.contains m.target :=
      Step.bindsIn_of_bound? (Move.bound?_of_perform hperform)
    rcases nextMove?_filter_or select hnext with hselected | ⟨c, hc, hselect, htarget⟩
    · -- A move of the selected catalogs is theirs at their own values as well.
      have hread := hagree.mono hseparates.vocabularyOf_subset
      have hsound' : ∀ c ∈ imports.filter select, c.fault? = none :=
        fun c hc => hsound c (List.mem_filter.1 hc).1
      obtain ⟨final', hrun', hagree'⟩ := ih (hagree.insert m.target value)
      refine ⟨final', ?_, hagree'⟩
      rw [List.filter_cons_of_pos]
      · exact .move ((nextMove?_congr hread).trans hselected)
          ((Move.perform_congr hsound' hselected hread).trans hperform) hrun'
      · rw [hbinds, List.contains_iff_mem]
        exact hseparates.vocabularyOf_subset (target_mem_vocabularyOf hselected)
    · -- Another move binds a name that they do not read.
      have hunread := hseparates.others c hc hselect m.target htarget
      obtain ⟨final', hrun', hagree'⟩ := ih fun n hn =>
        (hagree n hn).trans (Bindings.agreeOn_insert hunread b value n hn).symm
      refine ⟨final', ?_, hagree'⟩
      rw [List.filter_cons_of_neg]
      · exact hrun'
      · rw [hbinds, List.contains_iff_mem]
        exact hunread

/-- **A derivation that ends well holds the derivation of the selected catalogs.** -/
theorem derive_filter (hsound : ∀ c ∈ imports, c.fault? = none)
    (hseparates : Separates names select imports)
    (h : derive imports assuming b = .ok (steps, final)) :
    ∃ final', derive (imports.filter select) assuming b =
        .ok (steps.filter (·.bindsIn names), final') ∧ final.AgreeOn names final' := by
  obtain ⟨hrun, hend⟩ := derive_eq_ok_iff.1 h
  obtain ⟨final', hrun', hagree⟩ := hrun.filter_bindsIn hsound hseparates fun _ _ => rfl
  refine ⟨final', derive_eq_ok_iff.2 ⟨hrun', ?_⟩, hagree⟩
  rw [nextMove?_congr (hagree.mono hseparates.vocabularyOf_subset)]
  exact nextMove?_filter_of_none hend

/-! ## Sessions -/

/-- Catalogs that are all the same one answer every search as this one does. -/
theorem sameHits_singleton {c : Catalog} (hne : imports ≠ []) (h : ∀ d ∈ imports, d = c) :
    SameHits [c] imports := by
  refine ⟨fun search => ?_⟩
  rw [List.eq_replicate_of_mem h, List.findSome?_replicate_of_pos (List.length_pos_iff.2 hne),
    List.findSome?_singleton]

/-- What a trace has of some names is a trace of its own: the same steps bind them, in the
same order, and at the end both summaries show the same values for them. -/
structure Isolated (names : List String) (steps own : List Step) : Prop where
  moves : own.filter (·.bound?.isSome) = steps.filter (·.bindsIn names)
  summary : ∃ final final', steps.getLast? = some (.summary final) ∧
    own.getLast? = some (.summary final') ∧ final.AgreeOn names final'

/-- Steps that bind nothing may stand before both traces. -/
theorem Isolated.behind {own front front' : List Step} (h : Isolated names steps own)
    (hfront : ∀ step ∈ front, step.bound? = none) (hfront' : ∀ step ∈ front', step.bound? = none) :
    Isolated names (front ++ steps) (front' ++ own) := by
  obtain ⟨final, final', hlast, hlast', hagree⟩ := h.summary
  refine ⟨?_, final, final', ?_, ?_, hagree⟩
  · have hnone : front'.filter (·.bound?.isSome) = [] := by
      rw [List.filter_eq_nil_iff]
      intro step hstep
      rw [hfront' step hstep]
      exact Bool.false_ne_true
    rw [List.filter_append, List.filter_append, hnone, Step.filter_bindsIn_of_forall hfront,
      List.nil_append, List.nil_append, h.moves]
  · rw [List.getLast?_append, hlast]
    rfl
  · rw [List.getLast?_append, hlast']
    rfl

theorem isolated_filter_bindsIn {final' : Bindings} (hagree : final.AgreeOn names final') :
    Isolated names (steps ++ [.summary final])
      (steps.filter (·.bindsIn names) ++ [.summary final']) := by
  refine ⟨?_, final, final', List.getLast?_concat, List.getLast?_concat, hagree⟩
  have hbound : (steps.filter (·.bindsIn names)).filter (·.bound?.isSome) =
      steps.filter (·.bindsIn names) := by
    rw [List.filter_eq_self]
    intro step hstep
    obtain ⟨entry, hentry, -⟩ := (Option.any_eq_true ..).1 (List.mem_filter.1 hstep).2
    rw [hentry]
    rfl
  rw [List.filter_append, List.filter_append, hbound]
  rfl

namespace Registry

variable {r : Registry} {s : Session} {a b : Catalog}

/-- A session of known catalogs ends well with its remarks, its moves and the summary. -/
theorem solveSession_eq_ok_iff_derive (hresolve : r.resolve s.libraries = .ok imports)
    (hne : imports ≠ []) : r.solveSession s = .ok steps ↔
      ∃ moves final, derive imports (!s.hasHint noImplicit) s.values = .ok (moves, final) ∧
        unknownHintSteps imports s.hints ++ warningSteps imports s.hints s.values ++
          (moves ++ [.summary final]) = steps := by
  unfold solveSession
  rw [hresolve]
  cases imports with
  | nil => exact absurd rfl hne
  | cons c imports =>
    dsimp only
    rw [map_eq_ok]
    simp only [Prod.exists, List.append_assoc]

/-- Imports of two catalogs without a common name are divided by the name of the first. -/
theorem separates_of_disjoint (hdisjoint : ∀ name ∈ a.vocabulary, name ∉ b.vocabulary)
    (himports : ∀ c ∈ imports, c = a ∨ c = b)
    (hfirst : ∀ c ∈ imports, c.name = a.name → c = a) :
    Separates a.vocabulary (·.name == a.name) imports := by
  refine ⟨fun c hc hname => ?_, fun c hc hname => ?_⟩
  · rw [hfirst c hc (beq_iff_eq.1 hname)]
    exact List.Subset.refl _
  · rcases himports c hc with rfl | rfl
    · rw [beq_self_eq_true] at hname
      cases hname
    · exact fun name hb ha => hdisjoint name ha hb

/-- A session that lists two registered catalogs imports these, however often it lists them. -/
theorem importsOf_pair (ha : a ∈ r.catalogs) (hb : b ∈ r.catalogs)
    (hlibraries : ∀ name, name ∈ s.libraries ↔ name = a.name ∨ name = b.name) :
    r.resolve s.libraries = .ok (r.importsOf s) ∧ a ∈ r.importsOf s ∧
      ∀ c ∈ r.importsOf s, c = a ∨ c = b := by
  have hgeta := get?_of_mem ha
  have hgetb := get?_of_mem hb
  refine ⟨resolve_of_known fun name hname => ?_,
    List.mem_filterMap.2 ⟨a.name, (hlibraries _).2 (.inl rfl), hgeta⟩, fun c hc => ?_⟩
  · rcases (hlibraries name).1 hname with rfl | rfl
    · exact ⟨a, hgeta⟩
    · exact ⟨b, hgetb⟩
  · obtain ⟨name, hname, hget⟩ := List.mem_filterMap.1 hc
    rcases (hlibraries name).1 hname with rfl | rfl
    · exact .inl (Option.some.inj (hget.symm.trans hgeta))
    · exact .inr (Option.some.inj (hget.symm.trans hgetb))

/-- With one of two catalogs that have nothing in common, a session has what the session
with both has of its names. -/
theorem exists_isolated (ha : a ∈ r.catalogs) (hb : b ∈ r.catalogs)
    (hdisjoint : ∀ name ∈ a.vocabulary, name ∉ b.vocabulary)
    (hlibraries : ∀ name, name ∈ s.libraries ↔ name = a.name ∨ name = b.name)
    (h : r.solveSession s = .ok steps) :
    ∃ own, r.solveSession { s with libraries := [a.name] } = .ok own ∧
      Isolated a.vocabulary steps own := by
  obtain ⟨hresolve, hlisted, himports⟩ := importsOf_pair ha hb hlibraries
  have hfirst : ∀ c ∈ r.importsOf s, c.name = a.name → c = a :=
    fun c hc => eq_of_mem_of_name_eq hresolve hc hlisted
  have hresolve' : r.resolve [a.name] = .ok [a] := resolve_eq_ok_iff.2 (by simp [get?_of_mem ha])
  -- What is selected is the first catalog, as often as it is listed.
  have hsame : SameHits [a] ((r.importsOf s).filter (·.name == a.name)) := by
    refine sameHits_singleton (List.ne_nil_of_mem (List.mem_filter.2 ⟨hlisted, ?_⟩)) fun c hc => ?_
    · exact beq_self_eq_true a.name
    · obtain ⟨hc, hname⟩ := List.mem_filter.1 hc
      exact hfirst c hc (beq_iff_eq.1 hname)
  obtain ⟨moves, final, hderive, rfl⟩ :=
    (solveSession_eq_ok_iff_derive hresolve (List.ne_nil_of_mem hlisted)).1 h
  obtain ⟨final', hderive', hagree⟩ := derive_filter (fault?_of_resolve hresolve)
    (separates_of_disjoint hdisjoint himports hfirst) hderive
  rw [hsame.derive] at hderive'
  refine ⟨_, (solveSession_eq_ok_iff_derive hresolve' (List.cons_ne_nil _ _)).2
    ⟨_, final', hderive', rfl⟩, ?_⟩
  exact (isolated_filter_bindsIn hagree).behind (fun _ => bound?_of_mem_unknown_warnings)
    fun _ => bound?_of_mem_unknown_warnings

/-- **Catalogs with nothing in common do not interfere.** Let a session import two catalogs
neither of which mentions a name of the other, in whatever order and however often, and end
well. Then with one of them alone it ends well, its steps that derive or assume a value are
those steps of the first trace that bind a name of this catalog, and the two summaries show
the same values for these names. The lines that say the two sessions have such traces. -/
theorem solveSession_isolated (ha : a ∈ r.catalogs) (hb : b ∈ r.catalogs)
    (hdisjoint : ∀ name ∈ a.vocabulary, name ∉ b.vocabulary)
    (hlibraries : ∀ name, name ∈ s.libraries ↔ name = a.name ∨ name = b.name)
    (h : r.solveSession s = .ok steps) :
    (∃ own, r.solveSession { s with libraries := [a.name] } = .ok own ∧
      Isolated a.vocabulary steps own) ∧
    ∀ line line', (Session.read line).session = s →
      (Session.read line').session = { s with libraries := [a.name] } →
        ∃ whole own, r.solve line = .ok whole ∧ r.solve line' = .ok own ∧
          Isolated a.vocabulary whole own := by
  have hsession := exists_isolated ha hb hdisjoint hlibraries h
  refine ⟨hsession, ?_⟩
  rintro line line' rfl hline
  obtain ⟨own, hown, hisolated⟩ := hsession
  have hfaults : ∀ reading, ∀ step ∈ faultErrors reading, step.bound? = none := by
    intro reading step hstep
    obtain ⟨fault, -, rfl⟩ := List.mem_map.1 hstep
    rfl
  refine ⟨_, _, congrArg (Except.map (faultErrors (Session.read line) ++ ·)) h, ?_,
    hisolated.behind (hfaults (Session.read line)) (hfaults (Session.read line'))⟩
  rw [← hline] at hown
  exact congrArg (Except.map (faultErrors (Session.read line') ++ ·)) hown

/-- A catalog that assumes an angle between the axes and asks for its reference angle. -/
def slantedAngles : Catalog := { referenceAngles with implicits := [("a", 30.0)] }

/-- Between the moves of kinematics stand an assumed angle and its reference angle, which the
session without the angles does not have. -/
theorem solveSession_isolated_slanted : ∃ whole own,
    (empty.registerAll [slantedAngles, Kinematics.catalog]).solve
      "!angles !kinematics vix=3 ax=1 t=2" = .ok whole ∧
    (empty.registerAll [slantedAngles, Kinematics.catalog]).solve
      "!kinematics vix=3 ax=1 t=2" = .ok own ∧
    Isolated Kinematics.catalog.vocabulary whole own ∧
    whole.filterMap (·.bound?.map (·.1)) = ["dx", "vfx", "a", "r", "ay", "viy", "dy", "vfy"] := by
  have hsession : (Session.read "!kinematics vix=3 ax=1 t=2").session =
      { (Session.read "!angles !kinematics vix=3 ax=1 t=2").session with
        libraries := [Kinematics.catalog.name] } := by
    refine (Session.mk.injEq ..).mpr ⟨?_, ?_, Bindings.ext ?_⟩
    · decide +kernel
    · decide +kernel
    · decide +kernel
  have hlibraries : (Session.read "!angles !kinematics vix=3 ax=1 t=2").session.libraries =
      [slantedAngles.name, Kinematics.catalog.name] := by decide +kernel
  have hnames : ((empty.registerAll [slantedAngles, Kinematics.catalog]).solve
      "!angles !kinematics vix=3 ax=1 t=2").toOption.map (·.filterMap (·.bound?.map (·.1))) =
        some ["dx", "vfx", "a", "r", "ay", "viy", "dy", "vfy"] := by decide +kernel
  cases hsolve : (empty.registerAll [slantedAngles, Kinematics.catalog]).solve
      "!angles !kinematics vix=3 ax=1 t=2" with
  | error fault =>
    rw [hsolve] at hnames
    cases hnames
  | ok steps =>
    rw [hsolve] at hnames
    obtain ⟨moves, hmoves, -⟩ := map_eq_ok.1 hsolve
    have hkinematics : (empty.registerAll [slantedAngles, Kinematics.catalog]).get? "kinematics" =
        some Kinematics.catalog := rfl
    have hangles : (empty.registerAll [slantedAngles, Kinematics.catalog]).get? "angles" =
        some slantedAngles := rfl
    obtain ⟨-, hlines⟩ := solveSession_isolated (mem_of_get? hkinematics) (mem_of_get? hangles)
      (by decide +kernel) (fun name => by rw [hlibraries, List.mem_pair, or_comm]) hmoves
    obtain ⟨whole, own, hwhole, hown, hisolated⟩ := hlines _ _ rfl hsession
    rw [hsolve] at hwhole
    obtain rfl := Except.ok.inj hwhole
    exact ⟨steps, own, rfl, hown, hisolated, Option.some.inj hnames⟩

end Registry

end Stepwise
