import Nullalis.Base.Json

/-!
# Updates of the chat service

An update carries a message, and the message a sender, a chat and some content. The content of a
voice message is its transcription, that of a photo, a video or a document is a marker with the path
of the downloaded file. Where there is none, the text counts, and then the caption. A message that
has nothing of this is dropped.

What the network does for an update, the transcription and the downloads, is given with it.
-/

namespace Nullalis.Telegram

open Bytes (eqlIgnoreCase decimalInt)

/-- The answers of the service for the media of an update, by their file ids. -/
structure Media where
  transcribeTelegramVoice : Bytes → Option Bytes
  downloadTelegramPhoto : Bytes → Option Bytes
  downloadTelegramFile : Bytes → Option Bytes → Option Bytes

/-- An update, what the network does for it, and the time at which its message is made. -/
structure Arrival where
  update : Json
  media : Media
  timestamp : ℕ

structure ChannelMessage where
  id : Bytes
  sender : Bytes
  content : Bytes
  channel : Bytes
  timestamp : ℕ
  message_id : Option ℤ
  first_name : Option Bytes
  is_group : Bool
deriving DecidableEq

/-- Who may talk to the channel. -/
structure Allowlist where
  allow_from : List Bytes
  group_allow_from : List Bytes
  group_policy : Bytes
deriving DecidableEq

/-- A sender stands in a list, up to case and a leading `@`, or everybody does. -/
def allows (list : List Bytes) (sender : Bytes) : Bool :=
  list.any fun entry =>
    entry == ascii "*" ||
      eqlIgnoreCase (if 1 < entry.length ∧ entry.head? = some (byte '@') then entry.tail else entry)
        sender

def Allowlist.isUserAllowed (list : Allowlist) (sender : Bytes) : Bool :=
  allows list.allow_from sender

def Allowlist.isAnyIdentityAllowed (list : Allowlist) (identities : List Bytes) : Bool :=
  identities.any list.isUserAllowed

def Allowlist.isGroupUserAllowed (list : Allowlist) (sender : Bytes) : Bool :=
  allows list.group_allow_from sender

def Allowlist.isAnyGroupIdentityAllowed (list : Allowlist) (identities : List Bytes) : Bool :=
  identities.any list.isGroupUserAllowed

def Allowlist.isAuthorized (list : Allowlist) (is_group : Bool) (identities : List Bytes) : Bool :=
  if is_group then
    if list.group_policy == ascii "open" then true
    else if list.group_policy == ascii "disabled" then false
    else if list.group_allow_from.isEmpty then list.isAnyIdentityAllowed identities
    else list.isAnyGroupIdentityAllowed identities
  else list.isAnyIdentityAllowed identities

/-- The members of an object. -/
def object? : Json → Option (List (Bytes × Json))
  | .object members => some members
  | _ => none

/-- A member that is an object, a string or an integer. -/
def objectAt (members : List (Bytes × Json)) (name : Bytes) : Option (List (Bytes × Json)) :=
  (Json.get? members name).bind object?

def stringAt (members : List (Bytes × Json)) (name : Bytes) : Option Bytes :=
  (Json.get? members name).bind Json.string?

def integerAt (members : List (Bytes × Json)) (name : Bytes) : Option ℤ :=
  (Json.get? members name).bind Json.integer?

def Arrival.updateId (arrival : Arrival) : Option ℤ :=
  (object? arrival.update).bind fun update => integerAt update (ascii "update_id")

/-- The parts of a message that say where it comes from. -/
structure Envelope where
  message : List (Bytes × Json)
  sender : List (Bytes × Json)
  chat_id : ℤ
  is_group : Bool

def Arrival.envelope (arrival : Arrival) : Option Envelope := do
  let update ← object? arrival.update
  let message ← objectAt update (ascii "message")
  let sender ← objectAt message (ascii "from")
  let chat ← objectAt message (ascii "chat")
  let chat_id ← integerAt chat (ascii "id")
  let is_group := (stringAt chat (ascii "type")).any (· != ascii "private")
  return { message, sender, chat_id, is_group }

def Envelope.username (envelope : Envelope) : Bytes :=
  (stringAt envelope.sender (ascii "username")).getD (ascii "unknown")

def Envelope.user_id (envelope : Envelope) : Option Bytes :=
  (integerAt envelope.sender (ascii "id")).map decimalInt

def Envelope.identities (envelope : Envelope) : List Bytes :=
  envelope.username :: envelope.user_id.toList

def Envelope.sender_identity (envelope : Envelope) : Bytes :=
  if envelope.username != ascii "unknown" then envelope.username
  else envelope.user_id.getD (ascii "unknown")

def Envelope.caption (envelope : Envelope) : Option Bytes :=
  stringAt envelope.message (ascii "caption")

/-- A marker with the path of a downloaded file, and the caption behind it. -/
def Envelope.marked (envelope : Envelope) (marker path : Bytes) : Bytes :=
  marker ++ path ++ ascii "]" ++
    match envelope.caption with
    | some caption => ascii " " ++ caption
    | none => []

def Envelope.voiceContent (envelope : Envelope) (media : Media) (voice : Json) : Option Bytes := do
  let voice ← object? voice
  let file_id ← stringAt voice (ascii "file_id")
  match media.transcribeTelegramVoice file_id with
  | some transcribed => return ascii "[Voice]: " ++ transcribed
  | none => return envelope.caption.getD (ascii "[Voice]: (transcription unavailable)")

/-- The last size of a photo. -/
def Envelope.lastPhoto (envelope : Envelope) : Option (List (Bytes × Json)) :=
  match Json.get? envelope.message (ascii "photo") with
  | some (.array items) => items.getLast?.bind object?
  | _ => none

/-- The content of a photo: nothing if it has no file id, and the other media count if there is no
photo or it cannot be downloaded. -/
def Envelope.photoContent (envelope : Envelope) (media : Media) : Option (Option Bytes) :=
  match envelope.lastPhoto with
  | none => none
  | some photo =>
      match stringAt photo (ascii "file_id") with
      | none => some none
      | some file_id =>
          (media.downloadTelegramPhoto file_id).map fun path =>
            some (envelope.marked (ascii "[IMAGE:") path)

/-- The content of a video or a document, in the same way. -/
def Envelope.fileContent (envelope : Envelope) (media : Media) (name marker : Bytes) :
    Option (Option Bytes) :=
  match objectAt envelope.message name with
  | none => none
  | some file =>
      match stringAt file (ascii "file_id") with
      | none => some none
      | some file_id =>
          (media.downloadTelegramFile file_id (stringAt file (ascii "file_name"))).map fun path =>
            some (envelope.marked marker path)

def Envelope.videoContent (envelope : Envelope) (media : Media) : Option (Option Bytes) :=
  envelope.fileContent media (ascii "video") (ascii "[VIDEO:")

def Envelope.documentContent (envelope : Envelope) (media : Media) : Option (Option Bytes) :=
  envelope.fileContent media (ascii "document") (ascii "[FILE:")

/-- The content of the media of a message. -/
def Envelope.mediaContent (envelope : Envelope) (media : Media) : Option Bytes :=
  match (Json.get? envelope.message (ascii "voice")).or
      (Json.get? envelope.message (ascii "audio")) with
  | some voice => envelope.voiceContent media voice
  | none =>
      ((envelope.photoContent media).or
        ((envelope.videoContent media).or (envelope.documentContent media))).join

/-- The content of the media, or the text, or the caption. -/
def Envelope.finalContent (envelope : Envelope) (media : Media) : Option Bytes :=
  (envelope.mediaContent media).or
    ((stringAt envelope.message (ascii "text")).or envelope.caption)

/-- The envelope of an update that may talk to the channel. -/
def Allowlist.admit (list : Allowlist) (arrival : Arrival) : Option Envelope :=
  arrival.envelope.filter fun envelope =>
    list.isAuthorized envelope.is_group envelope.identities

/-- The message that is made of an update, with its media group. -/
def Allowlist.incoming (list : Allowlist) (arrival : Arrival) :
    Option (ChannelMessage × Option Bytes) := do
  let envelope ← list.admit arrival
  let content ← envelope.finalContent arrival.media
  let message : ChannelMessage :=
    { id := envelope.sender_identity
      sender := decimalInt envelope.chat_id
      content := content
      channel := ascii "telegram"
      timestamp := arrival.timestamp
      message_id := integerAt envelope.message (ascii "message_id")
      first_name := stringAt envelope.sender (ascii "first_name")
      is_group := envelope.is_group }
  return (message, stringAt envelope.message (ascii "media_group_id"))

section Content

variable {envelope : Envelope} {media : Media} {list : Allowlist} {arrival : Arrival}

theorem isSome_finalContent_iff :
    (envelope.finalContent media).isSome ↔
      (envelope.mediaContent media).isSome ∨
        (stringAt envelope.message (ascii "text")).isSome ∨ envelope.caption.isSome := by
  simp [Envelope.finalContent]

theorem isSome_incoming_iff :
    (list.incoming arrival).isSome ↔
      ∃ envelope, list.admit arrival = some envelope ∧
        (envelope.finalContent arrival.media).isSome := by
  cases admitted : list.admit arrival with
  | none => simp [Allowlist.incoming, admitted]
  | some envelope =>
      cases content : envelope.finalContent arrival.media <;>
        simp [Allowlist.incoming, admitted, content]

end Content

end Nullalis.Telegram
