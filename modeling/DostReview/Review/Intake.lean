import DostReview.Library.Returns
import DostReview.Review.Dumps
import DostReview.Review.Rows

/-!
# `submit_review` up to the gate

How a request body becomes a review: the validators of `models.DostReview`, the envelope of
`event_parser.py` and the route's choice between the two. What pydantic reads as a UUID or as a
datetime, and the decoders of the envelope with the texts of what they raise, are parameters. A
lone surrogate in a string stands as U+FFFD here: `json.dumps` writes six characters for either.
-/
namespace DostReview.Review

open Risk (Json JsonObject field asString truthy pyStrip)

/-- An error of a validated model: the path of the field and the message. -/
structure FieldError where
  loc : List String
  message : String
  deriving DecidableEq

abbrev Checked (α : Type) := Except (List FieldError) α

/-- Two fields checked: the errors of both. -/
def both {α β : Type} : Checked α → Checked β → Checked (α × β)
  | .ok a, .ok b => .ok (a, b)
  | .ok _, .error e => .error e
  | .error e, .ok _ => .error e
  | .error e, .error e' => .error (e ++ e')

/-- `datetime.min` and `datetime.max`, in microseconds. -/
def datetimeMin : ℤ := -62135596800000000

def datetimeMax : ℤ := 253402300799999999

/-- A datetime: its wall clock, and its offset from UTC if it has one. -/
structure Datetime where
  wall : ℤ
  offset : Option ℤ
  years : datetimeMin ≤ wall ∧ wall ≤ datetimeMax
  zone : ∀ o ∈ offset, -day < o ∧ o < day

/-- The instant; a naive datetime is taken as UTC. -/
def Datetime.instant (d : Datetime) : Time := d.wall - d.offset.getD 0

/-- What `json.loads` raises: a `JSONDecodeError`, or another exception. -/
inductive LoadsError
  | decode (text : String)
  | raised (text : String)

structure Readers where
  /-- pydantic's reading of a UUID and of a datetime, with its message where there is none -/
  uuid : Json → Except String Uuid
  datetime : Json → Except String Datetime
  /-- `UUID(x)`; `none` is a `ValueError` or an `AttributeError` -/
  parseUuid : Json → Option Uuid
  /-- `json.loads(base64.b64decode(x))` -/
  decodeEvent : Json → Except String Json
  loads : Json → Except LoadsError Json
  /-- the texts of a value, of a `ValidationError`, and of what `**x` raises on a value that is
  no mapping -/
  format : Json → String
  describe : List FieldError → String
  notMapping : Json → String
  /-- `float.__repr__` -/
  repr : ℚ → String

section

variable (R : Readers) (now : Time)

/-! ### `models.DostReview` -/

def required {α : Type} (body : JsonObject) (name : String) (read : Json → Except String α) :
    Checked α :=
  match Dict.get? body name with
  | none => .error [⟨[name], "Field required"⟩]
  | some x => (read x).mapError fun message => [⟨[name], message⟩]

def readText : Json → Except String String
  | .str s =>
    if s.length < 1 then .error "String should have at least 1 character"
    else if 5000 < s.length then .error "String should have at most 5000 characters"
    else if pyStrip s = "" then .error "Value error, reviewText must not be blank"
    else .ok s
  | _ => .error "Input should be a valid string"

/-- The items of the media list from an index on. -/
def readItems : ℕ → List Json → Checked (List JsonObject)
  | _, [] => .ok []
  | index, item :: items =>
    let item : Checked JsonObject :=
      match item with
      | .obj entries => .ok entries
      | _ => .error [⟨["multimedia", toString index], "Input should be a valid dictionary"⟩]
    (both item (readItems (index + 1) items)).map fun (item, items) => item :: items

/-- The media list as one value. -/
def mediaValue (media : List JsonObject) : Json := .arr (media.map .obj)

def readMultimedia (body : JsonObject) : Checked (Option (List JsonObject)) :=
  match Dict.get? body "multimedia" with
  | none => .ok none
  | some .null => .ok none
  | some (.arr items) =>
    if 10 < items.length then
      .error [⟨["multimedia"],
        "List should have at most 10 items after validation, not " ++ toString items.length⟩]
    else
      readItems 0 items >>= fun media =>
        -- the item count does not bound the payload
        if 100000 < dumpsLength R.repr (mediaValue media) then
          .error [⟨["multimedia"],
            "Value error, multimedia payload too large (max 100KB serialized)"⟩]
        else .ok (some media)
  | some _ => .error [⟨["multimedia"], "Input should be a valid list"⟩]

def readCreatedAt (x : Json) : Except String Time :=
  R.datetime x >>= fun v =>
    if now + 3600 * 1000000 < v.instant then
      .error "Value error, createdAt cannot be in the future"
    else if v.instant < now - 365 * day then
      .error "Value error, createdAt cannot be more than 1 year in the past"
    else .ok v.instant

/-- `DostReview(**body)` -/
def validate (body : JsonObject) : Checked DostReview :=
  (both (required body "reviewId" R.uuid)
    (both (required body "targetProfileId" R.uuid)
      (both (required body "raterProfileId" R.uuid)
        (both (required body "reviewText" readText)
          (both (readMultimedia R body) (required body "createdAt" (readCreatedAt R now))))))).map
    fun (id, target, rater, text, multimedia, createdAt) =>
      ⟨id, target, rater, text, multimedia, createdAt⟩

/-! ### `parse_event_envelope` -/

def readEventId (x : Json) : Except String (Option Uuid) :=
  if truthy x then
    match R.parseUuid x with
    | some id => .ok (some id)
    | none => .error ("Invalid eventId: " ++ R.format x)
  else .ok none

/-- `message.text` of the inner event. -/
def innerText : Json → Except String Json
  | .obj inner =>
    match (Dict.get? inner "message").getD (.obj []) with
    | .obj message =>
      if truthy (field message "text") then .ok (field message "text")
      else .error "Inner dostEvent has no message.text field"
    | _ => .error "Inner event message must be a JSON object"
  | _ => .error "Inner event must be a JSON object"

def reviewOfText (text : Json) : Except String DostReview :=
  match R.loads text with
  | .error (.decode e) => .error ("message.text is not valid JSON: " ++ e)
  | .error (.raised e) => .error ("Failed to parse DostReview from message.text: " ++ e)
  | .ok (.obj data) =>
    (validate R now data).mapError fun errors =>
      "Failed to parse DostReview from message.text: " ++ R.describe errors
  | .ok data => .error ("Failed to parse DostReview from message.text: " ++ R.notMapping data)

/-- The errors are the messages of `EnvelopeError`. -/
def parseEventEnvelope (body : JsonObject) : Except String (DostReview × Option Uuid) :=
  let eventType := field body "eventType"
  let encrypted := field body "encryptedEvent"
  if asString eventType ≠ some "MSG_START" then
    .error ("Expected eventType MSG_START, got " ++ R.format eventType)
  else if truthy encrypted = false then .error "Missing encryptedEvent field"
  else
    readEventId R (field body "eventId") >>= fun eventId =>
      (R.decodeEvent encrypted).mapError ("Failed to decode encryptedEvent: " ++ ·) >>= fun inner =>
        innerText inner >>= fun text =>
          (reviewOfText R now text).map fun review => (review, eventId)

/-! ### The route -/

inductive Detail
  | text (message : String)
  | fields (errors : List FieldError)

structure HttpError where
  status : ℕ
  detail : Detail

/-- `submit_review` up to its call of the gate; no body is one that is not JSON. -/
def readSubmission (body : Option Json) : Except HttpError (DostReview × Option Uuid) :=
  match body with
  | none => .error ⟨400, .text "Request body must be valid JSON"⟩
  | some (.obj body) =>
    -- an envelope has both of its own keys
    if (Dict.get? body "eventType").isSome ∧ (Dict.get? body "encryptedEvent").isSome then
      (parseEventEnvelope R now body).mapError fun message => ⟨400, .text message⟩
    else
      ((validate R now body).map fun review => (review, none)).mapError fun errors =>
        ⟨400, .fields errors⟩
  | some _ => .error ⟨400, .text "Request body must be a JSON object"⟩

end

/-! ### What is let through -/

/-- A review that the validators let through at this time. -/
structure Validated (R : Readers) (now : Time) (review : DostReview) : Prop where
  text : 1 ≤ review.reviewText.length ∧ review.reviewText.length ≤ 5000
  notBlank : pyStrip review.reviewText ≠ ""
  media : ∀ media ∈ review.multimedia,
    media.length ≤ 10 ∧ dumpsLength R.repr (mediaValue media) ≤ 100000
  recent : now - 365 * day ≤ review.createdAt ∧ review.createdAt ≤ now + 3600 * 1000000
  dated : ∃ d : Datetime, d.instant = review.createdAt

section

variable {R : Readers} {now : Time}

theorem yields_required {α : Type} {read : Json → Except String α} {post : α → Prop}
    (h : ∀ x, (read x).Yields post) (body : JsonObject) (name : String) :
    (required body name read).Yields post := by
  unfold required
  split
  · exact .error
  · exact (h _).mapError _

theorem yields_both {α β : Type} {x : Checked α} {y : Checked β} {left : α → Prop}
    {right : β → Prop} (hx : x.Yields left) (hy : y.Yields right) :
    (both x y).Yields fun p => left p.1 ∧ right p.2 := by
  cases x with
  | error e => cases y <;> exact .error
  | ok a =>
    cases y with
    | error e => exact .error
    | ok b => exact .ok ⟨hx a rfl, hy b rfl⟩

theorem yields_readText (x : Json) :
    (readText x).Yields fun s => (1 ≤ s.length ∧ s.length ≤ 5000) ∧ pyStrip s ≠ "" := by
  unfold readText
  split
  · split_ifs with short long blank
    · exact .error
    · exact .error
    · exact .error
    · exact .ok ⟨⟨not_lt.mp short, not_lt.mp long⟩, blank⟩
  · exact .error

theorem yields_readItems (index : ℕ) (items : List Json) :
    (readItems index items).Yields fun media => media.length = items.length := by
  induction items generalizing index with
  | nil => exact .ok rfl
  | cons item items ih =>
    refine ((yields_both (.trivial _) (ih (index + 1))).mono fun p length => ?_).map
    simp [length.2]

theorem yields_readMultimedia (body : JsonObject) :
    (readMultimedia R body).Yields fun media => ∀ m ∈ media,
      m.length ≤ 10 ∧ dumpsLength R.repr (mediaValue m) ≤ 100000 := by
  unfold readMultimedia
  split
  · exact .ok nofun
  · exact .ok nofun
  next items _ =>
    split_ifs with many
    · exact .error
    · refine (yields_readItems 0 items).bind fun media length => ?_
      split_ifs with huge
      · exact .error
      · refine .ok fun m here => ?_
        obtain rfl := Option.some.inj here
        exact ⟨length ▸ not_lt.mp many, not_lt.mp huge⟩
  · exact .error

variable (R now) in
theorem yields_readCreatedAt (x : Json) :
    (readCreatedAt R now x).Yields fun t =>
      (now - 365 * day ≤ t ∧ t ≤ now + 3600 * 1000000) ∧ ∃ d : Datetime, d.instant = t := by
  refine (Except.Yields.trivial (R.datetime x)).bind fun v _ => ?_
  split_ifs with future past
  · exact .error
  · exact .error
  · exact .ok ⟨⟨not_lt.mp past, not_lt.mp future⟩, v, rfl⟩

theorem yields_validate (body : JsonObject) :
    (validate R now body).Yields (Validated R now) := by
  have id (name : String) := yields_required (fun x => .trivial (R.uuid x)) body name
  have text := yields_required yields_readText body "reviewText"
  have createdAt := yields_required (yields_readCreatedAt R now) body "createdAt"
  refine Except.Yields.map ?_
  refine (yields_both (id _) (yields_both (id _) (yields_both (id _) (yields_both text
    (yields_both (yields_readMultimedia body) createdAt))))).mono ?_
  rintro p ⟨-, -, -, text, media, createdAt⟩
  exact ⟨text.1, text.2, media, createdAt.1, createdAt.2⟩

theorem yields_reviewOfText (text : Json) :
    (reviewOfText R now text).Yields (Validated R now) := by
  unfold reviewOfText
  split
  · exact .error
  · exact .error
  · exact (yields_validate _).mapError _
  · exact .error

/-- Whatever body a review comes out of, raw or in an envelope, it is validated. -/
theorem yields_readSubmission (body : Option Json) :
    (readSubmission R now body).Yields fun p => Validated R now p.1 := by
  have envelope : ∀ body, (parseEventEnvelope R now body).Yields fun p => Validated R now p.1 := by
    intro body
    unfold parseEventEnvelope
    dsimp only
    split_ifs
    · exact .error
    · exact .error
    · refine (Except.Yields.trivial _).bind fun eventId _ => (Except.Yields.trivial _).bind
        fun inner _ => (Except.Yields.trivial _).bind fun text _ => .map ?_
      exact yields_reviewOfText text
  have raw : ∀ body, ((validate R now body).map fun review => (review, (none : Option Uuid))).Yields
      fun p => Validated R now p.1 := by
    intro body
    refine .map ?_
    exact yields_validate body
  unfold readSubmission
  split
  · exact .error
  · split_ifs
    · exact (envelope _).mapError _
    · exact (raw _).mapError _
  · exact .error

end

end DostReview.Review
