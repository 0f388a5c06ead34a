import Nullalis.Channels.EmailSend

/-!
# Replies to attacker-chosen messages

The dots keep every body within its message. A Message-ID never has a line feed, since headers are
read line by line. A sender and a subject may have one, since encoded words are decoded afterwards.
-/

namespace Nullalis.Channels.Email

open Nullalis.Smtp

/-!
## Dots
-/

section Dots

variable {line rest body : Bytes}

theorem stuff_false_append (solid : byte '\n' ∉ line) :
    stuff false (line ++ rest) = line ++ stuff false rest := by
  induction line with
  | nil => rfl
  | cons value line ih =>
      rw [List.mem_cons, not_or] at solid
      have inside : decide (value = byte '\n') = false := by
        simpa using Ne.symm solid.1
      rw [List.cons_append, stuff, if_neg (by simp), inside, ih solid.2]
      rfl

theorem stuff_line (solid : byte '\n' ∉ line) :
    stuff true (line ++ byte '\n' :: rest) =
      (if line.head? = some (byte '.') then ascii "." ++ line else line) ++
        byte '\n' :: stuff true rest := by
  cases line with
  | nil => rfl
  | cons value line =>
      rw [List.mem_cons, not_or] at solid
      have inside : decide (value = byte '\n') = false := by
        simpa using Ne.symm solid.1
      have ended : stuff false (byte '\n' :: rest) = byte '\n' :: stuff true rest := rfl
      rw [List.cons_append, stuff, inside, stuff_false_append solid.2, ended]
      by_cases dot : value = byte '.'
      · simp [dot, ascii]
      · simp [dot]

theorem stuff_last (solid : byte '\n' ∉ line) :
    stuff true line = if line.head? = some (byte '.') then ascii "." ++ line else line := by
  cases line with
  | nil => rfl
  | cons value line =>
      rw [List.mem_cons, not_or] at solid
      have inside : decide (value = byte '\n') = false := by
        simpa using Ne.symm solid.1
      have ended : stuff false line = line := by
        have whole : stuff false (line ++ []) = line ++ stuff false [] := stuff_false_append solid.2
        rwa [List.append_nil, stuff, List.append_nil] at whole
      rw [stuff, inside, ended]
      by_cases dot : value = byte '.'
      · simp [dot, ascii]
      · simp [dot]

theorem writeLines_eq {rounds : ℕ} (enough : body.length < rounds) :
    writeLines rounds body = stuff true body := by
  induction rounds generalizing body with
  | zero => cases enough
  | succ rounds ih =>
      rw [writeLines]
      split
      · rename_i empty
        rw [List.eq_nil_of_length_eq_zero empty]
        rfl
      · by_cases mem : byte '\n' ∈ body
        · rcases List.eq_append_cons_of_mem mem with ⟨line, rest, rfl, solid⟩
          have cut : (line ++ byte '\n' :: rest).take (line.length + 1) = line ++ [byte '\n'] := by
            rw [List.take_length_add_append]
            rfl
          have behind : (line ++ byte '\n' :: rest).drop (line.length + 1) = rest := by
            rw [List.drop_length_add_append]
            rfl
          rw [Bytes.indexOfScalar_append_cons solid, Option.map_some, Option.getD_some]
          dsimp only
          rw [List.length_append, List.length_cons] at enough
          rw [cut, behind, ih (by omega), stuff_line solid]
          cases line with
          | nil => rfl
          | cons value line =>
              rw [List.cons_append, List.head?_cons, List.head?_cons]
              split <;> simp
        · have none : Bytes.indexOfScalar (byte '\n') body = none := by
            rw [Bytes.indexOfScalar, List.findIdx?_eq_none_iff]
            intro value inside
            exact beq_false_of_ne fun same => mem (same ▸ inside)
          have empty : writeLines rounds [] = [] := by cases rounds <;> rfl
          rw [none, Option.map_none, Option.getD_none]
          dsimp only
          rw [List.take_length, List.drop_length, empty, List.append_nil, stuff_last mem]

theorem writeDotStuffed_eq (body : Bytes) : writeDotStuffed body = stuff true body :=
  writeLines_eq (Nat.lt_succ_self _)

end Dots

/-!
## Sessions
-/

/-- The headers that the client intends. -/
def headerLines (config : EmailConfig) (msg_id : Option Bytes) (recipient subject : Bytes) :
    List Bytes :=
  [ascii "From: " ++ config.from_address, ascii "To: " ++ recipient, ascii "Subject: " ++ subject] ++
  msg_id.elim [] (fun msg_id =>
    [ascii "In-Reply-To: <" ++ msg_id ++ ascii ">", ascii "References: <" ++ msg_id ++ ascii ">"]) ++
  [ascii "Content-Type: text/plain; charset=utf-8"]

def mailFrom (config : EmailConfig) : Bytes :=
  ascii "MAIL FROM:<" ++ config.from_address ++ ascii ">"

def rcptTo (recipient : Bytes) : Bytes :=
  ascii "RCPT TO:<" ++ recipient ++ ascii ">"

/-- A server reads one mail with the headers and, if no line feed of it stands alone, the body. -/
structure Delivered (wire : Bytes) (config : EmailConfig) (msg_id : Option Bytes)
    (recipient subject body : Bytes) : Prop where
  whole : unterminated wire = []
  session : ∃ lines,
    events wire =
      [Event.command (mailFrom config), Event.command (rcptTo recipient),
        Event.command (ascii "DATA"),
        Event.message (headerLines config msg_id recipient subject ++ [] :: lines),
        Event.command (ascii "QUIT")] ∧
      (FollowsReturn body → lines.flatMap (· ++ crlf) = body ++ crlf)

/-- The session is not cut short: the user has consented, both addresses fit into their lines, and
the server accepts every step. -/
structure GoesThrough (config : EmailConfig) (replies : Replies) (recipient : Bytes) : Prop where
  consent : config.consent_granted = true
  from_fits : (mailFrom config ++ crlf).length ≤ 512
  to_fits : (rcptTo recipient ++ crlf).length ≤ 512
  from_accepted : replies.mailFrom.any (smtpCodeIs · 250) = true
  to_accepted : replies.rcptTo.any (smtpCodeIs · 250) = true
  data_accepted : replies.data.any (smtpCodeIs · 354) = true
  message_accepted : replies.message.any (smtpCodeIs · 250) = true

section Sessions

variable {config : EmailConfig} {ids : ReplyMessageIds} {replies : Replies}
  {recipient message subject body : Bytes} {msg_id : Option Bytes}

/-- The headers, the empty line and the body before the dot. -/
def messageContent (config : EmailConfig) (msg_id : Option Bytes) (recipient subject body : Bytes) : Bytes :=
  (headerLines config msg_id recipient subject ++ [[]]).flatMap (· ++ crlf) ++ stuff true body

theorem messageData_eq :
    messageData config msg_id recipient subject body =
      messageContent config msg_id recipient subject body ++ crlf ++ ([byte '.'] ++ crlf ++ []) := by
  have ends : ascii "\r\n" = crlf := rfl
  have dot : ascii "\r\n.\r\n" = crlf ++ ([byte '.'] ++ crlf ++ []) := rfl
  have close : ascii ">\r\n" = ascii ">" ++ crlf := rfl
  have type : ascii "Content-Type: text/plain; charset=utf-8\r\n" =
      ascii "Content-Type: text/plain; charset=utf-8" ++ crlf := by
    rw [ascii_ofList, ascii_ofList]
    rfl
  rw [messageData, messageContent, headerLines, writeDotStuffed_eq, ends, dot, close, type]
  cases msg_id with
  | none => simp
  | some msg_id => simp

/-- All that is written if nothing cuts the session short. -/
def sessionBytes (config : EmailConfig) (msg_id : Option Bytes) (recipient subject body : Bytes) : Bytes :=
  mailFrom config ++ crlf ++ (rcptTo recipient ++ crlf ++ (ascii "DATA" ++ crlf ++
    (messageContent config msg_id recipient subject body ++ crlf ++ ([byte '.'] ++ crlf ++
      (ascii "QUIT" ++ crlf ++ [])))))

theorem expectReply_of_accepted {reply : Option Bytes} {expected : ℕ} {rejected : SendError}
    (accepted : reply.any (smtpCodeIs · expected) = true) :
    expectReply reply expected rejected = pure () := by
  cases reply with
  | none => cases accepted
  | some resp =>
      rw [Option.any_some] at accepted
      rw [expectReply, if_pos accepted]

theorem expectReply_of_not {reply : Option Bytes} {expected : ℕ} {rejected : SendError}
    (refused : reply.any (smtpCodeIs · expected) ≠ true) :
    ∃ error, expectReply reply expected rejected = throw error := by
  cases reply with
  | none => exact ⟨SendError.SmtpError, rfl⟩
  | some resp =>
      rw [Option.any_some] at refused
      exact ⟨rejected, by rw [expectReply, if_neg refused]⟩

theorem written_of_goesThrough (goes : GoesThrough config replies recipient) :
    written (sendMessage config ids replies recipient message) =
      sessionBytes config (ids.get recipient) recipient (splitSubject message).1
        (splitSubject message).2 := by
  have consent := goes.consent
  have from_fits : (ascii "MAIL FROM:<" ++ config.from_address ++ ascii ">\r\n").length ≤ 512 := by
    have fits := goes.from_fits
    rw [mailFrom, List.append_assoc] at fits
    exact fits
  have to_fits : (ascii "RCPT TO:<" ++ recipient ++ ascii ">\r\n").length ≤ 512 := by
    have fits := goes.to_fits
    rw [rcptTo, List.append_assoc] at fits
    exact fits
  rw [sendMessage, consent, expectReply_of_accepted goes.from_accepted,
    expectReply_of_accepted goes.to_accepted, expectReply_of_accepted goes.data_accepted,
    expectReply_of_accepted goes.message_accepted, bufPrint, if_pos from_fits, bufPrint,
    if_pos to_fits]
  change [] ++ _ ++ _ ++ _ ++ messageData config (ids.get recipient) recipient
    (splitSubject message).1 (splitSubject message).2 ++ _ = _
  rw [messageData_eq, sessionBytes, mailFrom, rcptTo]
  have close : ascii ">\r\n" = ascii ">" ++ crlf := rfl
  have data : ascii "DATA\r\n" = ascii "DATA" ++ crlf := rfl
  have quit : ascii "QUIT\r\n" = ascii "QUIT" ++ crlf := rfl
  rw [close, data, quit]
  simp only [List.append_assoc, List.nil_append, List.append_nil]

theorem not_quit_suffix {text ending : Bytes} (three : ending.length = 3)
    (other : ending ≠ ascii "T\r\n") : ¬ascii "QUIT" ++ crlf <:+ text ++ ending := by
  rintro ⟨before, whole⟩
  have cut : before ++ (ascii "QUIT" ++ crlf) = (before ++ ascii "QUI") ++ ascii "T\r\n" := by
    simp [ascii, crlf]
  rw [cut] at whole
  exact other (List.append_inj_right' whole (by rw [three]; rfl)).symm

/-- A session that is cut short does not end with the last command. -/
theorem not_quit_of_cut (cut : ¬GoesThrough config replies recipient) :
    ¬ascii "QUIT" ++ crlf <:+ written (sendMessage config ids replies recipient message) := by
  have empty : ¬ascii "QUIT" ++ crlf <:+ ([] : Bytes) := by decide
  have mail (text address : Bytes) :
      ¬ascii "QUIT" ++ crlf <:+ text ++ (ascii "MAIL FROM:<" ++ address ++ ascii ">\r\n") := by
    rw [← List.append_assoc]
    exact not_quit_suffix rfl (by decide)
  have rcpt (text address : Bytes) :
      ¬ascii "QUIT" ++ crlf <:+ text ++ (ascii "RCPT TO:<" ++ address ++ ascii ">\r\n") := by
    rw [← List.append_assoc]
    exact not_quit_suffix rfl (by decide)
  -- Each stage either stops the session, with what has been written before it, or lets it go on.
  by_cases consent : config.consent_granted = true
  swap
  · rw [Bool.not_eq_true] at consent
    rw [sendMessage, consent]
    exact empty
  rw [sendMessage, consent]
  by_cases from_fits : (ascii "MAIL FROM:<" ++ config.from_address ++ ascii ">\r\n").length ≤ 512
  swap
  · rw [bufPrint, if_neg from_fits]
    exact empty
  rw [bufPrint, if_pos from_fits]
  by_cases from_accepted : replies.mailFrom.any (smtpCodeIs · 250) = true
  swap
  · rcases expectReply_of_not from_accepted with ⟨error, stopped⟩
    rw [stopped]
    exact mail _ _
  rw [expectReply_of_accepted from_accepted]
  by_cases to_fits : (ascii "RCPT TO:<" ++ recipient ++ ascii ">\r\n").length ≤ 512
  swap
  · rw [bufPrint, if_neg to_fits]
    exact mail _ _
  rw [bufPrint, if_pos to_fits]
  by_cases to_accepted : replies.rcptTo.any (smtpCodeIs · 250) = true
  swap
  · rcases expectReply_of_not to_accepted with ⟨error, stopped⟩
    rw [stopped]
    exact rcpt _ _
  rw [expectReply_of_accepted to_accepted]
  by_cases data_accepted : replies.data.any (smtpCodeIs · 354) = true
  swap
  · rcases expectReply_of_not data_accepted with ⟨error, stopped⟩
    rw [stopped]
    change ¬_ <:+ [] ++ _ ++ _ ++ (ascii "DAT" ++ ascii "A\r\n")
    rw [← List.append_assoc]
    exact not_quit_suffix rfl (by decide)
  rw [expectReply_of_accepted data_accepted]
  by_cases message_accepted : replies.message.any (smtpCodeIs · 250) = true
  swap
  · rcases expectReply_of_not message_accepted with ⟨error, stopped⟩
    rw [stopped]
    change ¬_ <:+ [] ++ _ ++ _ ++ _ ++ messageData config (ids.get recipient) recipient
      (splitSubject message).1 (splitSubject message).2
    have dot : ascii "\r\n.\r\n" = ascii "\r\n" ++ ascii ".\r\n" := rfl
    rw [messageData, dot, ← List.append_assoc, ← List.append_assoc]
    exact not_quit_suffix rfl (by decide)
  rw [List.append_assoc] at from_fits to_fits
  refine absurd ⟨consent, ?_, ?_, from_accepted, to_accepted, data_accepted, message_accepted⟩ cut
  · rw [mailFrom, List.append_assoc]
    exact from_fits
  · rw [rcptTo, List.append_assoc]
    exact to_fits

/-!
### What the server reads
-/

theorem map_unstuff_headerLines :
    (headerLines config msg_id recipient subject).map unstuff =
      headerLines config msg_id recipient subject := by
  cases msg_id <;> rfl

theorem ne_dot_of_mem_headerLines {line : Bytes}
    (mem : line ∈ headerLines config msg_id recipient subject) : line ≠ [byte '.'] := by
  rintro rfl
  cases msg_id <;> simp [headerLines, ascii, byte] at mem

theorem withinLine_between {value : Bytes} (within : WithinLine value) {opening closing : Bytes}
    (solid : byte '\n' ∉ opening ∧ byte '\n' ∉ closing)
    (edge : opening.getLast? ≠ some (byte '\r')) : WithinLine (opening ++ value ++ closing) := by
  apply WithinLine.append ((withinLine_of_not_mem solid.1).append within (Or.inl edge))
    (withinLine_of_not_mem solid.2)
  right
  intro feed
  exact solid.2 (List.mem_of_mem_head? feed)

theorem withinLine_after {value : Bytes} (within : WithinLine value) {opening : Bytes}
    (solid : byte '\n' ∉ opening) (edge : opening.getLast? ≠ some (byte '\r')) :
    WithinLine (opening ++ value) :=
  (withinLine_of_not_mem solid).append within (Or.inl edge)

theorem withinLine_mailFrom (within : WithinLine config.from_address) :
    WithinLine (mailFrom config) :=
  withinLine_between within ⟨by decide, by decide⟩ (by decide)

theorem withinLine_rcptTo (within : WithinLine recipient) : WithinLine (rcptTo recipient) :=
  withinLine_between within ⟨by decide, by decide⟩ (by decide)

theorem withinLine_headerLines (within_from : WithinLine config.from_address)
    (within_to : WithinLine recipient) (within_subject : WithinLine subject)
    (within_id : ∀ id ∈ msg_id, WithinLine id) :
    ∀ line ∈ headerLines config msg_id recipient subject, WithinLine line := by
  intro line mem
  simp only [headerLines, List.mem_append, List.mem_cons, List.not_mem_nil, or_false] at mem
  rcases mem with ((rfl | rfl | rfl) | thread) | rfl
  · exact withinLine_after within_from (by decide) (by decide)
  · exact withinLine_after within_to (by decide) (by decide)
  · exact withinLine_after within_subject (by decide) (by decide)
  · cases msg_id with
    | none => cases thread
    | some id =>
        have within := within_id id rfl
        rw [Option.elim_some, List.mem_cons, List.mem_singleton] at thread
        rcases thread with rfl | rfl
        · exact withinLine_between within ⟨by decide, by decide⟩ (by decide)
        · exact withinLine_between within ⟨by decide, by decide⟩ (by decide)
  · exact withinLine_of_not_mem (by decide)

/-- The whole session is read as one mail, if no text ends a line. -/
theorem delivered_sessionBytes (within_from : WithinLine config.from_address)
    (within_to : WithinLine recipient) (within_subject : WithinLine subject)
    (within_id : ∀ id ∈ msg_id, WithinLine id) :
    Delivered (sessionBytes config msg_id recipient subject body) config msg_id recipient subject
      body := by
  have within := withinLine_headerLines within_from within_to within_subject within_id
  have lines : splitCrlf (messageContent config msg_id recipient subject body) =
      headerLines config msg_id recipient subject ++ [] :: splitCrlf (stuff true body) := by
    have all : ∀ line ∈ headerLines config msg_id recipient subject ++ [[]], WithinLine line := by
      intro line mem
      rcases List.mem_append.mp mem with header | empty
      · exact within line header
      · rw [List.mem_singleton.mp empty]
        exact withinLine_nil
    rw [messageContent, splitCrlf_flatMap all, List.append_assoc, List.singleton_append]
  cases split : splitCrlf (stuff true body) with
  | nil => exact absurd split (splitCrlf_ne_nil _)
  | cons part parts =>
      have dots := ne_dot_of_stuff split
      have plain : ∀ line ∈ splitCrlf (messageContent config msg_id recipient subject body),
          line ≠ [byte '.'] := by
        intro line mem
        rw [lines, split] at mem
        rcases List.mem_append.mp mem with header | behind
        · exact ne_dot_of_mem_headerLines header
        · rcases List.mem_cons.mp behind with rfl | inside
          · nofun
          · rcases List.mem_cons.mp inside with rfl | later
            · exact dots.1 rfl
            · exact dots.2 line later
      have mail := withinLine_mailFrom within_from
      have rcpt := withinLine_rcptTo within_to
      have quit : WithinLine (ascii "QUIT") := withinLine_of_not_mem (by decide)
      refine ⟨?_, (part :: parts).map unstuff, ?_, ?_⟩
      · simp only [sessionBytes, unterminated_append]
        rfl
      · rw [sessionBytes, events_command mail rfl, events_command rcpt rfl, events_data plain, lines,
          split, List.map_append, map_unstuff_headerLines, events_command quit (by decide)]
        rfl
      · intro follows
        have same := map_unstuff_of_stuff follows split
        rw [if_pos rfl] at same
        rw [List.map_cons, ← same, flatMap_splitCrlf]

theorem Delivered.within {wire : Bytes}
    (delivered : Delivered wire config msg_id recipient subject body) :
    WithinLine config.from_address ∧ WithinLine recipient ∧ ascii "QUIT" ++ crlf <:+ wire := by
  rcases delivered.session with ⟨lines, session, -⟩
  have mail : Event.command (mailFrom config) ∈ events wire := by
    rw [session]
    simp
  have rcpt : Event.command (rcptTo recipient) ∈ events wire := by
    rw [session]
    simp
  refine ⟨(withinLine_of_command mail).of_part ⟨_, _, rfl⟩,
    (withinLine_of_command rcpt).of_part ⟨_, _, rfl⟩, ?_⟩
  apply suffix_of_events _ delivered.whole
  rw [session]
  rfl

theorem delivered_sendMessage_iff (solid : byte '\n' ∉ (splitSubject message).1)
    (within_id : ∀ id ∈ ids.get recipient, WithinLine id) :
    Delivered (written (sendMessage config ids replies recipient message)) config
        (ids.get recipient) recipient (splitSubject message).1 (splitSubject message).2 ↔
      GoesThrough config replies recipient ∧ WithinLine config.from_address ∧ WithinLine recipient := by
  refine ⟨?_, ?_⟩
  · intro delivered
    have within := delivered.within
    refine ⟨?_, within.1, within.2.1⟩
    by_contra cut
    exact not_quit_of_cut cut within.2.2
  · rintro ⟨goes, within_from, within_to⟩
    rw [written_of_goesThrough goes]
    exact delivered_sessionBytes within_from within_to (withinLine_of_not_mem solid) within_id

end Sessions

/-!
## Subjects
-/

section Subjects

variable {message subject text : Bytes}

theorem indexOf_feed (text : Bytes) :
    Bytes.indexOf (ascii "\n") text = Bytes.indexOfScalar (byte '\n') text := by
  induction text with
  | nil => rfl
  | cons value text ih =>
      rw [Bytes.indexOf, ih, Bytes.indexOfScalar, Bytes.indexOfScalar, List.findIdx?_cons]
      by_cases feed : value = byte '\n'
      · simp [feed, ascii]
      · simp [Ne.symm feed, feed, ascii]

theorem splitSubject_solid (message : Bytes) : byte '\n' ∉ (splitSubject message).1 := by
  have default : byte '\n' ∉ ascii "nullalis Message" := by decide
  rw [splitSubject]
  split
  · rw [indexOf_feed]
    split
    · rename_i nl_pos found
      intro mem
      rcases List.findIdx?_eq_some_iff_getElem.mp found with ⟨inside, -, first⟩
      rcases List.mem_iff_getElem.mp (List.mem_of_mem_drop mem) with ⟨place, bound, here⟩
      rw [List.getElem_take] at here
      rw [List.length_take] at bound
      have other := first place (by omega)
      rw [here] at other
      exact other (beq_self_eq_true _)
    · exact default
  · exact default

theorem splitSubject_reply (solid : byte '\n' ∉ subject) :
    splitSubject (ascii "Subject: " ++ subject ++ ascii "\n" ++ text) =
      (subject, trimLeft bodyBlanks text) := by
  have starts : Bytes.startsWith (ascii "Subject: " ++ subject ++ ascii "\n" ++ text) "Subject: " =
      true := by
    rw [Bytes.startsWith, List.isPrefixOf_iff_prefix]
    exact ⟨subject ++ ascii "\n" ++ text, by simp only [List.append_assoc]⟩
  have line : ascii "Subject: " ++ subject ++ ascii "\n" ++ text =
      (ascii "Subject: " ++ subject) ++ byte '\n' :: text := by
    rw [List.append_assoc]
    rfl
  have apart : byte '\n' ∉ ascii "Subject: " ++ subject := by
    rw [List.mem_append, not_or]
    exact ⟨by decide, solid⟩
  rw [splitSubject, if_pos starts, indexOf_feed, line, Bytes.indexOfScalar_append_cons apart]
  dsimp only
  rw [List.take_left, List.drop_length_add_append]
  rfl

theorem mem_replySubjectAlloc : byte '\n' ∈ replySubjectAlloc subject ↔ byte '\n' ∈ subject := by
  have reply : byte '\n' ∉ ascii "Re: " := by decide
  rw [replySubjectAlloc]
  split
  · rfl
  · rw [List.mem_append]
    exact ⟨fun mem => mem.resolve_left reply, Or.inr⟩

end Subjects

/-!
## Message-IDs
-/

section MessageIds

variable {value : UInt8} {bytes name : Bytes} {parts : List Bytes}

theorem mem_of_mem_trimLeft {values : Bytes} (mem : value ∈ trimLeft values bytes) : value ∈ bytes :=
  (List.dropWhile_sublist _).subset mem

theorem mem_of_mem_trimRight {values : Bytes} (mem : value ∈ trimRight values bytes) :
    value ∈ bytes :=
  List.mem_reverse.mp ((List.dropWhile_sublist _).subset (List.mem_reverse.mp mem))

theorem continuation_solid (solid : ∀ part ∈ parts, byte '\n' ∉ part) :
    byte '\n' ∉ continuation parts := by
  induction parts with
  | nil => exact List.not_mem_nil
  | cons raw parts ih =>
      have rest := ih fun part mem => solid part (List.mem_cons_of_mem _ mem)
      rw [continuation]
      split
      · rw [List.mem_cons, List.mem_append, not_or, not_or]
        refine ⟨by decide, ?_, rest⟩
        intro mem
        exact solid raw List.mem_cons_self (mem_of_mem_trimRight (mem_of_mem_trimLeft mem))
      · exact List.not_mem_nil

theorem findHeader_solid (solid : ∀ part ∈ parts, byte '\n' ∉ part) :
    byte '\n' ∉ findHeader name parts := by
  induction parts with
  | nil => exact List.not_mem_nil
  | cons raw parts ih =>
      have others : ∀ part ∈ parts, byte '\n' ∉ part :=
        fun part mem => solid part (List.mem_cons_of_mem _ mem)
      rw [findHeader]
      split
      · exact ih others
      · split
        · rw [List.mem_append, not_or]
          refine ⟨?_, continuation_solid others⟩
          intro mem
          exact solid raw List.mem_cons_self
            (mem_of_mem_trimRight (List.mem_of_mem_drop (mem_of_mem_trimLeft mem)))
        · exact ih others

theorem extractHeader_solid (header_block name : Bytes) :
    byte '\n' ∉ extractHeader header_block name :=
  findHeader_solid fun _ mem => Bytes.not_mem_of_splitScalar mem

theorem message_id_solid (raw : Bytes) : byte '\n' ∉ (parseEmailMessage raw).message_id := by
  intro mem
  have inside : byte '\n' ∈ Bytes.trim blanks
      (extractHeader (raw.take (headerEnd raw).1) (ascii "message-id")) := by
    change byte '\n' ∈ stripAngleBrackets _ at mem
    rw [stripAngleBrackets] at mem
    split at mem
    · exact List.mem_of_mem_drop (List.mem_of_mem_take mem)
    · exact mem
  exact extractHeader_solid _ _ ((Bytes.trim_sublist _ _).subset inside)

def Tracked (ids : ReplyMessageIds) : Prop :=
  ∀ entry ∈ ids, byte '\n' ∉ entry.2

theorem Tracked.pollMessage {config : EmailConfig} {ids : ReplyMessageIds} (tracked : Tracked ids)
    (raw : Bytes) : Tracked (pollMessage config ids raw) := by
  rw [Email.pollMessage]
  split
  · intro entry mem
    rcases List.mem_cons.mp mem with rfl | kept
    · exact message_id_solid raw
    · exact tracked entry (List.mem_filter.mp kept).1
  · exact tracked

theorem tracked_pollMessages (config : EmailConfig) (raws : List Bytes) :
    Tracked (pollMessages config raws) := by
  have run {ids : ReplyMessageIds} (tracked : Tracked ids) :
      Tracked (raws.foldl (Email.pollMessage config) ids) := by
    induction raws generalizing ids with
    | nil => exact tracked
    | cons raw raws ih => exact ih (tracked.pollMessage raw)
  exact run nofun

theorem Tracked.withinLine {ids : ReplyMessageIds} (tracked : Tracked ids) (sender : Bytes) :
    ∀ id ∈ ids.get sender, WithinLine id := by
  intro id mem
  rcases Option.map_eq_some_iff.mp (Option.mem_def.mp mem) with ⟨entry, found, rfl⟩
  exact withinLine_of_not_mem (tracked entry (List.mem_of_find?_eq_some found))

end MessageIds

theorem subject_of_headerLines {config : EmailConfig} {msg_id : Option Bytes}
    {recipient subject other : Bytes} {lines others : List Bytes}
    (same : headerLines config msg_id recipient subject ++ [] :: lines =
      headerLines config msg_id recipient other ++ [] :: others) : subject = other := by
  have third := congrArg (·[2]?) same
  exact List.append_cancel_left (Option.some.inj third)

theorem delivered_sendReply_iff {config : EmailConfig} {ids : ReplyMessageIds} {replies : Replies}
    {recipient original_subject text : Bytes} (within_id : ∀ id ∈ ids.get recipient, WithinLine id) :
    Delivered (written (sendReply config ids replies recipient original_subject text)) config
        (ids.get recipient) recipient (replySubjectAlloc original_subject)
        (trimLeft bodyBlanks text) ↔
      GoesThrough config replies recipient ∧ WithinLine config.from_address ∧ WithinLine recipient ∧
        byte '\n' ∉ original_subject := by
  let message := ascii "Subject: " ++ replySubjectAlloc original_subject ++ ascii "\n" ++ text
  have sends : Delivered (written (sendMessage config ids replies recipient message)) config
        (ids.get recipient) recipient (splitSubject message).1 (splitSubject message).2 ↔
      GoesThrough config replies recipient ∧ WithinLine config.from_address ∧ WithinLine recipient :=
    delivered_sendMessage_iff (splitSubject_solid message) within_id
  refine ⟨?_, ?_⟩
  · intro delivered
    have within := delivered.within
    have goes : GoesThrough config replies recipient := by
      by_contra cut
      exact not_quit_of_cut cut within.2.2
    refine ⟨goes, within.1, within.2.1, ?_⟩
    rcases delivered.session with ⟨lines, session, -⟩
    rcases (sends.mpr ⟨goes, within.1, within.2.1⟩).session with ⟨others, session', -⟩
    -- The client cuts the subject at its first line feed.
    have same := session.symm.trans session'
    simp only [List.cons.injEq, Event.message.injEq, true_and, and_true] at same
    rw [← mem_replySubjectAlloc, subject_of_headerLines same]
    exact splitSubject_solid message
  · rintro ⟨goes, within_from, within_to, solid⟩
    have split : splitSubject message = (replySubjectAlloc original_subject, trimLeft bodyBlanks text) :=
      splitSubject_reply (by rwa [mem_replySubjectAlloc])
    have delivered := sends.mpr ⟨goes, within_from, within_to⟩
    rw [split] at delivered
    exact delivered

section Plain

variable {encoded from_value : Bytes}

end Plain

/-- A reply is delivered if and only if its session is not cut short, no address ends a line, and the
subject has no line feed. The same holds of a message, with no condition on its text. -/
theorem reply_delivered_iff (config : EmailConfig) (raws : List Bytes) (replies : Replies)
    (raw text : Bytes) :
    (Delivered
        (written (sendReply config (pollMessages config raws) replies
          (parseEmailMessage raw).from_addr (parseEmailMessage raw).subject text))
        config ((pollMessages config raws).get (parseEmailMessage raw).from_addr)
        (parseEmailMessage raw).from_addr (replySubjectAlloc (parseEmailMessage raw).subject)
        (trimLeft bodyBlanks text) ↔
      GoesThrough config replies (parseEmailMessage raw).from_addr ∧
        WithinLine config.from_address ∧ WithinLine (parseEmailMessage raw).from_addr ∧
          byte '\n' ∉ (parseEmailMessage raw).subject) ∧
    (Delivered
        (written (sendMessage config (pollMessages config raws) replies
          (parseEmailMessage raw).from_addr text))
        config ((pollMessages config raws).get (parseEmailMessage raw).from_addr)
        (parseEmailMessage raw).from_addr (splitSubject text).1 (splitSubject text).2 ↔
      GoesThrough config replies (parseEmailMessage raw).from_addr ∧
        WithinLine config.from_address ∧ WithinLine (parseEmailMessage raw).from_addr) := by
  have within_id := (tracked_pollMessages config raws).withinLine (parseEmailMessage raw).from_addr
  exact ⟨delivered_sendReply_iff within_id,
    delivered_sendMessage_iff (splitSubject_solid text) within_id⟩

/-- An encoded word in the sender's address names another recipient. -/
theorem not_reply_delivered :
    ¬∀ (config : EmailConfig) (raws : List Bytes) (replies : Replies) (raw text : Bytes),
      isSenderAllowed config (parseEmailMessage raw).from_addr = true →
      GoesThrough config replies (parseEmailMessage raw).from_addr →
      WithinLine config.from_address →
      Delivered
        (written (sendReply config (pollMessages config raws) replies
          (parseEmailMessage raw).from_addr (parseEmailMessage raw).subject text))
        config ((pollMessages config raws).get (parseEmailMessage raw).from_addr)
        (parseEmailMessage raw).from_addr (replySubjectAlloc (parseEmailMessage raw).subject)
        (trimLeft bodyBlanks text) := by
  intro claim
  have delivered := claim ⟨ascii "me@c.d", [ascii "@c.d"], true⟩ []
    ⟨some (ascii "250 OK"), some (ascii "250 OK"), some (ascii "354 OK"), some (ascii "250 OK")⟩
    (ascii "From: =?u?Q?a=3E=0D=0ARCPT TO:=3Cb@c.d?=\r\n\r\n") (ascii "Hello")
    (by decide)
    ⟨rfl, by decide, by decide, by decide, by decide,
      by decide, by decide⟩
    (by rw [WithinLine]; decide)
  have within := delivered.within.2.1
  rw [WithinLine] at within
  revert within
  decide +kernel

end Nullalis.Channels.Email
