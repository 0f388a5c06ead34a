import Nullalis.Base.Smtp
import Nullalis.Channels.EmailMessage

/-!
# Outbound messages

A message is sent over SMTP: after the authentication the client names the sender and the
recipient, sends headers and body, and quits. It waits for the server's word after each step, and
stops where the server refuses.
-/

namespace Nullalis.Channels.Email

/-- What the channel is configured with. -/
structure EmailConfig where
  from_address : Bytes
  allow_from : List Bytes := []
  consent_granted : Bool := true

/-- Does the sender stand on the allowlist? Full addresses, `@domain` and bare domains may stand
there. -/
def isSenderAllowed (config : EmailConfig) (email_addr : Bytes) : Bool :=
  config.allow_from.any fun allowed =>
    if allowed = ascii "*" then true
    else if allowed.head? = some (byte '@') then endsWithIgnoreCase email_addr allowed
    else if (Bytes.indexOf (ascii "@") allowed).isSome then Bytes.eqlIgnoreCase allowed email_addr
    else
      allowed.length + 1 < email_addr.length &&
        (email_addr.drop (email_addr.length - allowed.length - 1)).head? == some (byte '@') &&
          Bytes.eqlIgnoreCase (email_addr.drop (email_addr.length - allowed.length)) allowed

/-- The last Message-ID of each sender. -/
abbrev ReplyMessageIds := List (Bytes × Bytes)

def ReplyMessageIds.get (reply_message_ids : ReplyMessageIds) (sender : Bytes) : Option Bytes :=
  (reply_message_ids.find? (·.1 == sender)).map (·.2)

/-- Record a Message-ID for a sender. -/
def trackMessageId (reply_message_ids : ReplyMessageIds) (sender message_id : Bytes) :
    ReplyMessageIds :=
  (sender, message_id) :: reply_message_ids.filter (·.1 != sender)

/-- What a poll does with a raw message for the threading of replies. -/
def pollMessage (config : EmailConfig) (reply_message_ids : ReplyMessageIds) (raw : Bytes) :
    ReplyMessageIds :=
  let parsed := parseEmailMessage raw
  if isSenderAllowed config parsed.from_addr && 0 < parsed.message_id.length then
    trackMessageId reply_message_ids parsed.from_addr parsed.message_id
  else reply_message_ids

def pollMessages (config : EmailConfig) (raws : List Bytes) : ReplyMessageIds :=
  raws.foldl (pollMessage config) []

/-!
## Sending
-/

inductive SendError where
  | ConsentNotGranted
  | NoSpaceLeft
  | SmtpError
  | SmtpMailFromRejected
  | SmtpRcptToRejected
  | SmtpDataRejected
  | SmtpMessageRejected
deriving DecidableEq

/-- What the server answers to each step, if its answer can be read. -/
structure Replies where
  mailFrom : Option Bytes
  rcptTo : Option Bytes
  data : Option Bytes
  message : Option Bytes

/-- The code at the start of a reply. -/
def smtpReplyCode (resp : Bytes) : Option ℕ :=
  if resp.length < 3 ∨ ¬(resp.take 3).all Bytes.isDigit then none
  else (Bytes.parseInt 0 65535 (resp.take 3)).map Int.toNat

def smtpCodeIs (resp : Bytes) (expected : ℕ) : Bool :=
  smtpReplyCode resp == some expected

/-- A session after the authentication, with the bytes that it has written. -/
abbrev Session := ExceptT SendError (StateM Bytes)

def smtpWrite (data : Bytes) : Session Unit :=
  modify (· ++ data)

/-- Read the server's reply, and stop unless it has the code. -/
def expectReply (reply : Option Bytes) (expected : ℕ) (rejected : SendError) : Session Unit :=
  match reply with
  | none => throw SendError.SmtpError
  | some resp => if smtpCodeIs resp expected then pure () else throw rejected

/-- Format a line into a buffer of 512 bytes (`std.fmt.bufPrint`). -/
def bufPrint (line : Bytes) : Session Bytes :=
  if line.length ≤ 512 then pure line else throw SendError.NoSpaceLeft

/-- The loop of `writeDotStuffed`. Every round leaves a line behind. -/
def writeLines : ℕ → Bytes → Bytes
  | 0, _ => []
  | rounds + 1, body =>
      if body.length = 0 then []
      else
        let stop := ((Bytes.indexOfScalar (byte '\n') body).map (· + 1)).getD body.length
        let line := body.take stop
        (if line.head? = some (byte '.') then ascii "." ++ line else line) ++
          writeLines rounds (body.drop stop)

/-- The body with a dot before every line that starts with one. -/
def writeDotStuffed (body : Bytes) : Bytes :=
  writeLines (body.length + 1) body

/-- The subject and the body of a message, which may start with its subject. -/
def splitSubject (message : Bytes) : Bytes × Bytes :=
  if Bytes.startsWith message "Subject: " then
    match Bytes.indexOf (ascii "\n") message with
    | some nl_pos =>
        ((message.take nl_pos).drop 9, trimLeft bodyBlanks (message.drop (nl_pos + 1)))
    | none => (ascii "nullalis Message", message)
  else (ascii "nullalis Message", message)

/-- The headers and the body as they are sent. -/
def messageData (config : EmailConfig) (msg_id : Option Bytes) (recipient subject body : Bytes) :
    Bytes :=
  ascii "From: " ++ config.from_address ++ ascii "\r\n" ++
  (ascii "To: " ++ recipient ++ ascii "\r\n") ++
  (ascii "Subject: " ++ subject ++ ascii "\r\n") ++
  msg_id.elim [] (fun msg_id =>
    ascii "In-Reply-To: <" ++ msg_id ++ ascii ">\r\n" ++
    (ascii "References: <" ++ msg_id ++ ascii ">\r\n")) ++
  ascii "Content-Type: text/plain; charset=utf-8\r\n" ++ ascii "\r\n" ++
  writeDotStuffed body ++ ascii "\r\n.\r\n"

/-- Send an email. If the message starts with a line `Subject: …`, that is its subject. -/
def sendMessage (config : EmailConfig) (reply_message_ids : ReplyMessageIds) (replies : Replies)
    (recipient message : Bytes) : Session Unit := do
  if !config.consent_granted then throw SendError.ConsentNotGranted
  let (subject, body) := splitSubject message
  let from_line ← bufPrint (ascii "MAIL FROM:<" ++ config.from_address ++ ascii ">\r\n")
  smtpWrite from_line
  expectReply replies.mailFrom 250 SendError.SmtpMailFromRejected
  let rcpt_line ← bufPrint (ascii "RCPT TO:<" ++ recipient ++ ascii ">\r\n")
  smtpWrite rcpt_line
  expectReply replies.rcptTo 250 SendError.SmtpRcptToRejected
  smtpWrite (ascii "DATA\r\n")
  expectReply replies.data 354 SendError.SmtpDataRejected
  smtpWrite (messageData config (reply_message_ids.get recipient) recipient subject body)
  expectReply replies.message 250 SendError.SmtpMessageRejected
  smtpWrite (ascii "QUIT\r\n")

/-- Does the subject start with `Re:`, in any case? -/
def hasReplyPrefix (subject : Bytes) : Bool :=
  3 ≤ subject.length && Bytes.eqlIgnoreCase (subject.take 3) (ascii "Re:")

def replySubjectAlloc (original : Bytes) : Bytes :=
  if hasReplyPrefix original then original else ascii "Re: " ++ original

/-- Send a reply to a message with the subject. -/
def sendReply (config : EmailConfig) (reply_message_ids : ReplyMessageIds) (replies : Replies)
    (recipient original_subject message : Bytes) : Session Unit :=
  sendMessage config reply_message_ids replies recipient
    (ascii "Subject: " ++ replySubjectAlloc original_subject ++ ascii "\n" ++ message)

def written (session : Session Unit) : Bytes :=
  (session.run.run []).2

end Nullalis.Channels.Email
