import Stepwise.Proofs.Solution.Depth
import Stepwise.Proofs.Solution.FaultFree
import Stepwise.Service.Http

/-!
# Two transports, one answer

The text protocol and the service over HTTP ask the same questions, each with its own
reader and its own replies:

> `reply_agrees_respond`: a command for a solution or an edit is answered with what the
> same request posted as JSON is answered with, and no other text is answered at all
> but by an error.

How JSON is spelled and how a body is taken out of a request is not up to the service.
Of the library for JSON it is asked that it reads what it prints, and of the extractor
that it takes from a body what the library reads there (`Extractor.Accepts`).

A command for a solution needs no reader, and has no error because no line fails with
the catalogs that come with the solver. The reply lists the steps of the solution, and
as no formula is nested deep, a client reads from it the steps themselves
(`depth_listToJson`).
-/

namespace Stepwise.Service

/-! ## Commands -/

/-- What follows a word is what the word was put in front of. -/
theorem after?_eq_some_iff {word text rest : String} :
    after? word text = some rest ↔ text = word ++ rest := by
  have hlist : text = word ++ rest ↔ text.toList = word.toList ++ rest.toList := by
    rw [← String.toList_append, String.toList_inj]
  unfold after?
  rw [hlist, ← String.length_toList]
  split
  · next hprefix =>
    obtain ⟨cs, hcs⟩ := List.isPrefixOf_iff_prefix.1 hprefix
    rw [← hcs, List.drop_left, Option.some_inj, List.append_cancel_left_eq]
    constructor
    · rintro rfl
      rw [String.toList_ofList]
    · rintro rfl
      rw [String.ofList_toList]
  · next hprefix =>
    refine ⟨nofun, fun heq => absurd ?_ hprefix⟩
    rw [heq]
    exact List.isPrefixOf_iff_prefix.2 (List.prefix_append _ _)

theorem after?_append (word rest : String) : after? word (word ++ rest) = some rest :=
  after?_eq_some_iff.2 rfl

theorem replyWith_solve (json : Json.Library) (line : String) :
    replyWith json ("SOLVE:" ++ line) = solveCommand line := by
  unfold replyWith
  rw [after?_append]

/-- A text begins with no word of another first character. -/
theorem ne_append_of_head? {text word : String} {c : Char} (rest : String)
    (hword : word.toList.head? = some c) (htext : text.toList.head? ≠ some c) :
    text ≠ word ++ rest := by
  rintro rfl
  refine htext ?_
  rw [String.toList_append, List.head?_append, hword]
  rfl

theorem after?_eq_none {word text : String} (h : ∀ rest, text ≠ word ++ rest) :
    after? word text = none :=
  Option.eq_none_iff_forall_ne_some.2 fun rest hrest => h rest (after?_eq_some_iff.1 hrest)

/-- No text begins with both words. -/
theorem replyWith_edit (json : Json.Library) (payload : String) :
    replyWith json ("REWRITE:" ++ payload) = editCommand json payload := by
  have hhead : ("REWRITE:" ++ payload).toList.head? ≠ some 'S' := by
    rw [String.toList_append, List.head?_append]
    show some 'R' ≠ some 'S'
    decide
  unfold replyWith
  rw [after?_eq_none fun line => ne_append_of_head? line rfl hhead, after?_append]

theorem replyWith_unknown (json : Json.Library) {text : String}
    (hsolve : ∀ line, text ≠ "SOLVE:" ++ line) (hedit : ∀ payload, text ≠ "REWRITE:" ++ payload) :
    replyWith json text = .error (.unknown text) := by
  unfold replyWith
  rw [after?_eq_none hsolve, after?_eq_none hedit]

/-- The catalogs that come with the solver fail for no line. -/
theorem exists_solve_builtin (line : String) : ∃ steps, Registry.builtin.solve line = .ok steps :=
  Registry.exists_solve fun _ _ _ hget =>
    Registry.asksReference_builtin (Registry.mem_of_get? hget)

/-! ## Requests as JSON -/

open Json (Fits)

/-- A button is what its shape expects: every member is one of the shape and is there
once, and the text, which must be there, is never left out. -/
theorem fits_button {b : Button} (hb : b.IsFinite) : Fits buttonShape b.toJson := by
  have hset : Fits (.table .number) (.ofBindings b.set) := by
    refine Json.fits_table fun m hm => ?_
    obtain ⟨entry, hentry, rfl⟩ := List.mem_map.1 hm
    exact Json.fits_number_ofFloat (hb entry hentry)
  have htexts (texts : List String) : Fits (.list .text) (Json.ofTexts texts) := by
    refine Json.fits_list fun item hitem => ?_
    obtain ⟨s, -, rfl⟩ := List.mem_map.1 hitem
    rfl
  rw [Button.toJson_eq]
  refine ⟨rfl, Json.fitMembers_record (fun _ _ => List.not_mem_nil) ?_ ?_ ?_⟩
  · exact b.names_members.nodup (by decide)
  · exact Button.forall_mem_members ⟨_, _, rfl, rfl⟩ ⟨_, _, rfl, hset⟩ ⟨_, _, rfl, htexts _⟩
      ⟨_, _, rfl, htexts _⟩ ⟨_, _, rfl, rfl⟩
  · intro field hfield hrequired
    simp only [List.mem_cons, List.not_mem_nil, or_false] at hfield
    rcases hfield with rfl | hoptional
    · exact .inl List.mem_cons_self
    · rcases hoptional with rfl | rfl | rfl | rfl
      all_goals cases hrequired

namespace SolveRequest

/-- A request for a solution as JSON. -/
def toJson (r : SolveRequest) : Json := .object [("script", .string r.script)]

theorem fits_toJson (r : SolveRequest) : Fits shape r.toJson :=
  ⟨rfl, ⟨_, rfl, rfl⟩, rfl⟩

/-- A request for a solution is read from what is printed of it. -/
theorem read_toJson {json : Json.Library} (hjson : json.ReadsBack) (r : SolveRequest) :
    json.read decoder (json.print r.toJson) = .ok r :=
  hjson.read_print decoder r.toJson r r.fits_toJson (by show 1 ≤ 127; decide) rfl

end SolveRequest

namespace EditRequest

theorem fits_toJson {r : EditRequest} (hr : r.button.IsFinite) : Fits shape r.toJson :=
  ⟨rfl, ⟨_, rfl, rfl⟩, ⟨_, rfl, fits_button hr⟩, rfl⟩

theorem reads_toJson {r : EditRequest} (hr : r.button.IsFinite) : ofJson? r.toJson = some r := by
  show (Button.ofJson? r.button.toJson).bind
    (fun button => some (EditRequest.mk r.script button)) = _
  rw [Button.reads_toJson hr]
  rfl

theorem depth_toJson (r : EditRequest) : r.toJson.depth ≤ 3 := by
  refine Nat.succ_le_succ (Json.depthOfMembers_le fun m hm => ?_)
  simp only [List.mem_cons, List.not_mem_nil, or_false] at hm
  rcases hm with rfl | rfl
  · exact Nat.zero_le 2
  · exact r.button.depth_toJson

/-- **A request for an edit by a finite button is read from what is printed of it.** -/
theorem read_toJson {json : Json.Library} (hjson : json.ReadsBack) {r : EditRequest}
    (hr : r.button.IsFinite) : json.read decoder (json.print r.toJson) = .ok r :=
  hjson.read_print decoder r.toJson r (fits_toJson hr)
    (Nat.le_trans r.depth_toJson (by decide)) (reads_toJson hr)

end EditRequest

/-! ## Commands for an edit -/

/-- An edit that is read is answered by the edited line. -/
theorem editCommand_of_read {json : Json.Library} {payload : String} {q : EditRequest}
    (h : json.read EditRequest.decoder payload = .ok q) :
    editCommand json payload = .script q.answer := by
  unfold editCommand
  rw [h]

theorem editCommand_of_error {json : Json.Library} {payload reason : String}
    (h : json.read EditRequest.decoder payload = .error reason) :
    editCommand json payload = .error (.badPayload reason) := by
  unfold editCommand
  rw [h]

/-! ## Requests over HTTP -/

/-- A request that posts JSON of moderate size to a path. -/
structure HttpRequest.Posts (r : HttpRequest) (path : String) : Prop where
  method : r.method = "POST"
  path : r.path = path
  contentType : r.contentType = some "application/json"
  size : r.body.utf8ByteSize ≤ maxBodySize

/-- **The law of an extractor**: of a body that is declared as JSON and of moderate size
it takes what the library reads there. -/
structure Extractor.Accepts (extractor : Extractor) (json : Json.Library) : Prop where
  extract_eq : ∀ {α : Type} (decoder : Json.Decoder α) (r : HttpRequest) (value : α),
    r.contentType = some "application/json" → r.body.utf8ByteSize ≤ maxBodySize →
      json.read decoder r.body = .ok value → extractor.extract decoder r = .ok value

/-- What the standard library reads to its end the standard extractor reads. -/
theorem Extractor.accepts_standard : standard.Accepts .standard where
  extract_eq decoder r value htype hsize hread := by
    have hjson : (r.contentType.bind MediaType.ofText?).any MediaType.isJson = true := by
      rw [htype]
      decide +kernel
    obtain ⟨tree, htree, hvalue⟩ := Json.read_standard_eq_ok hread
    obtain ⟨rest, hrest⟩ := Json.readAs_of_readWhole htree
    unfold standard
    dsimp only
    rw [hjson, if_neg (by decide), if_neg (Nat.not_lt.2 hsize), hrest]
    dsimp only
    rw [hvalue]

section Respond

variable {json : Json.Library} {extractor : Extractor} {r : HttpRequest}

/-- A request whose body is read is answered by the handler of its path. -/
theorem posted_of_read {α : Type} {decoder : Json.Decoder α} {handler : α → Response}
    {path : String} {value : α} (hextractor : extractor.Accepts json) (h : r.Posts path)
    (hread : json.read decoder r.body = .ok value) :
    posted extractor decoder handler r = handler value := by
  unfold posted
  rw [if_pos h.method, hextractor.extract_eq decoder r value h.contentType h.size hread]

theorem respondWith_solve (hextractor : extractor.Accepts json) {q : SolveRequest}
    (h : r.Posts "/solve") (hread : json.read SolveRequest.decoder r.body = .ok q) :
    respondWith extractor r = respondSolve q := by
  unfold respondWith
  rw [h.path]
  exact posted_of_read hextractor h hread

theorem respondWith_edit (hextractor : extractor.Accepts json) {q : EditRequest}
    (h : r.Posts "/rewrite") (hread : json.read EditRequest.decoder r.body = .ok q) :
    respondWith extractor r = respondEdit q := by
  unfold respondWith
  rw [h.path]
  exact posted_of_read hextractor h hread

end Respond

/-! ## The agreement -/

/-- The text of an error that is a mistake of the client. -/
def warningText (json : Json.Library) (code message : String) : String :=
  "ERROR_UPDATE:" ++ json.print (.object [("code", .string code), ("message", .string message),
    ("severity", .string "warning")])

/-- **Both transports give the same answers**, whatever library reads and prints JSON and
whatever extractor takes it out of a request. Every line has a solution, and a command
and a posted request are answered by the steps of it, one item for each; every edit is
answered by the edited line, and one by a button of finite values can be asked for. A
text that begins with neither word is no command, and a payload that cannot be read is a
bad one; of both the client is told. -/
theorem reply_agrees_respond {json : Json.Library} {extractor : Extractor}
    (hjson : json.ReadsBack) (hextractor : extractor.Accepts json) :
    (∀ script, ∃ steps, Registry.builtin.solve script = .ok steps ∧
      (replyWith json ("SOLVE:" ++ script)).text json =
        "STEPS_UPDATE:" ++ json.print (Step.listToJson steps) ∧
      Step.Lists (Step.listToJson steps) steps ∧
      ((∀ s ∈ steps, s.IsFinite) →
        json.read Step.listDecoder (json.print (Step.listToJson steps)) = .ok steps) ∧
      json.read SolveRequest.decoder (json.print (SolveRequest.mk script).toJson) = .ok ⟨script⟩ ∧
      ∀ r : HttpRequest, r.Posts "/solve" → json.read SolveRequest.decoder r.body = .ok ⟨script⟩ →
        respondWith extractor r =
          { status := .ok, content := .json (.object [("steps", Step.listToJson steps)]) }) ∧
    (∀ (script : String) (button : Button),
      (button.IsFinite → json.read EditRequest.decoder
        (json.print (EditRequest.mk script button).toJson) = .ok ⟨script, button⟩) ∧
      (∀ payload, json.read EditRequest.decoder payload = .ok ⟨script, button⟩ →
        (replyWith json ("REWRITE:" ++ payload)).text json =
          "SCRIPT_UPDATE:" ++ Session.editLine script button) ∧
      ∀ r : HttpRequest, r.Posts "/rewrite" →
        json.read EditRequest.decoder r.body = .ok ⟨script, button⟩ → respondWith extractor r =
          { status := .ok
            content := .json (.object [("script", .string (Session.editLine script button))]) }) ∧
    (∀ text, (∀ script, text ≠ "SOLVE:" ++ script) → (∀ payload, text ≠ "REWRITE:" ++ payload) →
      (replyWith json text).text json =
        warningText json "UNKNOWN_COMMAND" ("Unknown command: " ++ text)) ∧
    ∀ payload reason, json.read EditRequest.decoder payload = .error reason →
      (replyWith json ("REWRITE:" ++ payload)).text json =
        warningText json "BAD_COMMAND" ("Invalid REWRITE payload: " ++ reason) := by
  refine ⟨?_, ?_, ?_, ?_⟩
  · intro script
    obtain ⟨steps, hsteps⟩ := exists_solve_builtin script
    refine ⟨steps, hsteps, ?_, Step.lists_listToJson steps, fun hfinite => ?_,
      SolveRequest.read_toJson hjson ⟨script⟩, fun r hposts hread => ?_⟩
    · rw [replyWith_solve, solveCommand, hsteps]
      rfl
    · exact hjson.read_print _ _ steps (Step.fits_any_listToJson steps)
        (Registry.depth_listToJson hsteps) ((Step.lists_listToJson steps).listOfJson?_eq hfinite)
    · rw [respondWith_solve hextractor hposts hread, respondSolve, hsteps]
  · intro script button
    refine ⟨fun hfinite => EditRequest.read_toJson hjson hfinite, fun payload hread => ?_,
      fun r hposts hread => ?_⟩
    · rw [replyWith_edit, editCommand_of_read hread]
      rfl
    · rw [respondWith_edit hextractor hposts hread]
      rfl
  · intro text hsolve hedit
    rw [replyWith_unknown json hsolve hedit]
    rfl
  · intro payload reason hread
    rw [replyWith_edit, editCommand_of_error hread]
    rfl

/-- A text posted as JSON. -/
def HttpRequest.posting (path body : String) : HttpRequest :=
  { method := "POST", path, contentType := some "application/json", body }

theorem HttpRequest.body_posting (path body : String) : (posting path body).body = body := rfl

theorem HttpRequest.posts_posting (path : String) {body : String}
    (hsize : body.utf8ByteSize ≤ maxBodySize) : (posting path body).Posts path :=
  ⟨rfl, rfl, rfl, hsize⟩

/-- The button that sets the displacement to five. -/
def displacing : Button := .setting "Set the displacement" "dx" 5.0

/-- A line solved and edited over both transports by the standard library and extractor,
a text that is no command and a list that is no request. -/
theorem reply_agrees_respond_samples :
    (∃ steps, (∀ s ∈ steps, s.IsFinite) ∧
      (reply "SOLVE:!kinematics @no-implicit dx=6 vix=2 ax=0").text .standard =
        "STEPS_UPDATE:" ++ (Step.listToJson steps).text ∧
      Json.Library.standard.read Step.listDecoder (Step.listToJson steps).text = .ok steps ∧
      respond (.posting "/solve" "\x7b\"script\":\"!kinematics @no-implicit dx=6 vix=2 ax=0\"\x7d") =
        { status := .ok, content := .json (.object [("steps", Step.listToJson steps)]) }) ∧
    displacing.toJson.text =
      "\x7b\"text\":\"Set the displacement\",\"set\":\x7b\"dx\":5.0\x7d\x7d" ∧
    (reply ("REWRITE:" ++ (EditRequest.mk "dx=1" displacing).toJson.text)).text .standard =
      "SCRIPT_UPDATE:dx=5" ∧
    respond (.posting "/rewrite" (EditRequest.mk "dx=1" displacing).toJson.text) =
      { status := .ok, content := .json (.object [("script", .string "dx=5")]) } ∧
    (reply "PING").text .standard =
      warningText .standard "UNKNOWN_COMMAND" "Unknown command: PING" ∧
    (reply "REWRITE:[]").text .standard =
      warningText .standard "BAD_COMMAND" "Invalid REWRITE payload: unexpected shape" := by
  obtain ⟨hsolve, hedit, hunknown, hbad⟩ :=
    reply_agrees_respond Json.readsBack_standard Extractor.accepts_standard
  obtain ⟨steps, hsteps, hreply, -, hreads, hrequest, hrespond⟩ :=
    hsolve "!kinematics @no-implicit dx=6 vix=2 ax=0"
  obtain ⟨hread, hreply', hrespond'⟩ := hedit "dx=1" displacing
  have hfinite : ∀ s ∈ steps, s.IsFinite := by
    have hall : (Registry.builtin.solve "!kinematics @no-implicit dx=6 vix=2 ax=0").toOption.any
        (·.all fun s => decide s.IsFinite) = true := by decide +kernel
    rw [hsteps] at hall
    exact fun s hs => of_decide_eq_true (List.all_eq_true.1 hall s hs)
  have hbody : (SolveRequest.mk "!kinematics @no-implicit dx=6 vix=2 ax=0").toJson.text =
      "\x7b\"script\":\"!kinematics @no-implicit dx=6 vix=2 ax=0\"\x7d" := by decide +kernel
  have hpayload := hread (by decide +kernel)
  rw [Json.Library.print_standard] at hreply hreads hrequest hpayload
  rw [hbody] at hrequest
  have hline : Session.editLine "dx=1" displacing = "dx=5" := by decide +kernel
  rw [hline] at hreply' hrespond'
  have hsmall : "\x7b\"script\":\"!kinematics @no-implicit dx=6 vix=2 ax=0\"\x7d".utf8ByteSize ≤
      maxBodySize := by decide +kernel
  have hsmall' : (EditRequest.mk "dx=1" displacing).toJson.text.utf8ByteSize ≤ maxBodySize := by
    decide +kernel
  have hanswer := hrespond _ (HttpRequest.posts_posting "/solve" hsmall)
  have hanswer' := hrespond' _ (HttpRequest.posts_posting "/rewrite" hsmall')
  -- Were the bodies left to unification, it would evaluate the readers on them.
  rw [HttpRequest.body_posting] at hanswer hanswer'
  refine ⟨⟨steps, hfinite, hreply, hreads hfinite, hanswer hrequest⟩, by decide +kernel,
    hreply' _ hpayload, hanswer' hpayload, ?_, hbad "[]" "unexpected shape" rfl⟩
  exact hunknown "PING" (fun script => ne_append_of_head? script rfl (by decide))
    fun payload => ne_append_of_head? payload rfl (by decide)

end Stepwise.Service
