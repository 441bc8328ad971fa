import CodexLb.PublicItems

/-!
# Text events the public stream adds

The OpenAI client needs `response.created` first and a delta for every text. The
stream makes up text deltas for items whose text was never streamed, and it
replays the text events it held back before the response was created, with an
item around them. `none` stands for the `TypeError` of a set lookup with a list
or an object.
-/
namespace CodexLb.Public
open Json

/-- The item and the place in the output a text delta is for. -/
abbrev TextKey := Option String × Option ℤ

variable (payload : Object)

/-- `_text_delta_stream_key`. -/
def textDeltaKey : TextKey := (filledText payload "item_id",payload.int? "output_index")

/-- `_output_item_stream_key`. -/
def outputItemKey (index : ℤ) (item : Object) : TextKey := (filledText item "id",some index)

/-- `_seen_text_delta_for_output_item`. -/
def seenTextDelta (key : TextKey) (seen : List TextKey) : Bool :=
  key ∈ seen || (key.1.isSome && (key.1,none) ∈ seen) || (key.2.isSome && (none,key.2) ∈ seen) ||
    (none,none) ∈ seen

/-- `_synthetic_text_delta_for_output_item`. -/
def syntheticTextDelta (outputIndex : Json) (index : ℤ) (item : Object) (seen : List TextKey) :
    Option (Object × TextKey) := do
  let normalized ← normalizeOutputItem item
  let text ← outputItemText normalized
  let key := outputItemKey index normalized
  if seenTextDelta key seen then none
  else
    let event : Object := ⟨[("type",.str "response.output_text.delta"),
      ("output_index",outputIndex),("content_index",.int 0),("delta",.str text)]⟩
    return (match filledText normalized "id" with
      | some id => event.set "item_id" (.str id)
      | none => event,key)

def syntheticDeltas : ℕ → List Json → List TextKey → List Object × List TextKey
  | _,[],seen => ([],seen)
  | i,item::items,seen =>
    match item.obj?.bind (syntheticTextDelta (.int i) i · seen) with
    | none => syntheticDeltas (i+1) items seen
    | some (event,key) =>
      let r := syntheticDeltas (i+1) items (key::seen)
      (event::r.1,r.2)

def typeHashable : Bool := (payload.get? "type").all Json.hashable

/-- `_synthetic_text_delta_events`. -/
def syntheticTextDeltas (seen : List TextKey) : Option (List Object × List TextKey) :=
  match (if isType payload ["response.output_item.done"] then
      (payload.get? "output_index").bind fun o => o.isInt.bind fun index =>
        (payload.obj? "item").map fun item => (o,index,item)
    else none) with
  | some (o,index,item) =>
    match syntheticTextDelta o index item seen with
    | some (event,key) => some ([event],key::seen)
    | none => some ([],seen)
  | none =>
    if typeHashable payload then
      if isFinished payload then
        some (syntheticDeltas 0 (((payload.obj? "response").bind (·.arr? "output")).getD []) seen)
      else some ([],seen)
    else none

def replayableTypes : List String :=
  ["response.output_text.delta","response.output_text.done","response.content_part.done",
    "response.refusal.delta","response.refusal.done"]

def lifecycleTypes : List String :=
  ["response.output_item.added","response.output_item.done","response.content_part.added"]

def textPartTypes : List String := ["output_text","input_text","text","refusal"]

/-- `_pre_created_buffer_has_indexed_lifecycle`. -/
def hasIndexedLifecycle (payloads : List Object) : Bool :=
  payloads.any fun payload => isType payload lifecycleTypes ||
    (payload.int? "output_index").isSome || (payload.text? "item_id").isSome

/-- `_response_id_from_event_payload`. -/
def eventResponseId : Option String :=
  (payload.obj? "response").bind (filledText · "id")

/-- `_synthetic_pre_created_item_id`. -/
def preCreatedItemId : Option String → String
  | some id => "msg_"++id++"_precreated"
  | none => "msg_precreated"

/-- `_payload_sequence_number`. -/
def payloadSequenceNumber (fallback : ℤ) : Json :=
  match payload.get? "sequence_number" with
  | some v => if v.isInt.isSome then v else .int fallback
  | none => .int fallback

structure Replay where
  formatted : List Object
  textItemOpened : Bool
  textParts : List String
  finalText : Option String
  sequenceNumber : Json
  seen : List TextKey

namespace Replay
variable (itemId : String) (r : Replay)

def nextSequenceNumber : ℤ := r.sequenceNumber.isInt.getD 0+1

def messageItem (status : String) (content : List Json) : Json :=
  .obj [("id",.str itemId),("type",.str "message"),("role",.str "assistant"),
    ("status",.str status),("content",.arr content)]

/-- `open_text_item`. -/
def openTextItem : Replay :=
  if r.textItemOpened then r
  else {r with
    formatted := r.formatted++[
      ⟨[("type",.str "response.output_item.added"),("sequence_number",r.sequenceNumber),
        ("output_index",.int 0),("item",messageItem itemId "in_progress" [])]⟩,
      ⟨[("type",.str "response.content_part.added"),("sequence_number",r.sequenceNumber),
        ("output_index",.int 0),("content_index",.int 0),("item_id",.str itemId),
        ("part",.obj [("type",.str "output_text"),("text",.str "")])]⟩]
    textItemOpened := true}

variable (payload : Object)

def placed : Object :=
  (((payload.set "sequence_number" r.sequenceNumber).set "output_index" (.int 0)).set
    "content_index" (.int 0)).set "item_id" (.str itemId)

def addDelta : Replay :=
  match payload.text? "delta" with
  | none => r
  | some delta =>
    let r := r.openTextItem itemId
    {r with
      textParts := r.textParts++[delta]
      formatted := r.formatted++[(r.placed itemId payload).setDefault "logprobs" (.arr [])]
      seen := (some itemId,some 0)::r.seen}

def addDone : Replay :=
  let text := (payload.text? "text").getD (String.join r.textParts)
  let r := r.openTextItem itemId
  {r with
    finalText := some text
    formatted := r.formatted++[(r.placed itemId payload).setDefault "logprobs" (.arr [])]}

def addPart : Option Replay :=
  match payload.obj? "part" with
  | none => some {r with formatted := r.formatted++[payload]}
  | some part =>
    if (part.get? "type").all Json.hashable then
      if (part.text? "type").any (· ∈ textPartTypes) then
        let r := (({r with finalText := part.text? "text" <|> r.finalText} : Replay).openTextItem
          itemId)
        some {r with formatted := r.formatted++[r.placed itemId payload]}
      else some {r with formatted := r.formatted++[payload]}
    else none

/-- The body of the loop of `_format_legacy_pre_created_payloads`. -/
def add : Option Replay :=
  if isType payload replayableTypes then
    let r : Replay := {r with sequenceNumber := payloadSequenceNumber payload r.nextSequenceNumber}
    if isType payload ["response.output_text.delta","response.refusal.delta"] then
      some (r.addDelta itemId payload)
    else if isType payload ["response.output_text.done","response.refusal.done"] then
      some (r.addDone itemId payload)
    else r.addPart itemId payload
  else some r

def closeTextItem : Replay :=
  if r.textItemOpened then
    {r with
      formatted := r.formatted++[
        ⟨[("type",.str "response.output_item.done"),("sequence_number",.int r.nextSequenceNumber),
          ("output_index",.int 0),("item",messageItem itemId "completed"
            [.obj [("type",.str "output_text"),
              ("text",.str (r.finalText.getD (String.join r.textParts)))]])]⟩]
      seen := (none,some 0)::r.seen}
  else r

end Replay

/-- `_format_legacy_pre_created_payloads`. -/
def replayPayloads (payloads : List Object) (responseId : Option String) (seen : List TextKey) :
    Option (List Object × List TextKey) :=
  let itemId := preCreatedItemId responseId
  (payloads.foldlM (Replay.add itemId) ⟨[],false,[],none,.int 0,seen⟩).map fun r =>
    let r := r.closeTextItem itemId
    (r.formatted,r.seen)

/-- `buffered_pre_created_payloads_to_replay`. -/
def replayBuffer (buffer : List Object) (responseId : Option String) (seen : List TextKey) :
    Option (List Object × List TextKey) :=
  if hasIndexedLifecycle buffer then some ([],seen) else replayPayloads buffer responseId seen

end CodexLb.Public
