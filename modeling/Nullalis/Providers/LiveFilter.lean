import Nullalis.Base.Bytes
import Nullalis.Base.Scanner

/-!
# The filter of the live stream

Markup that the model writes for the backend is kept out of the text that the user sees while
it streams: tool calls, invocations, plans, and what is left of a plan's tags. The last fifteen
bytes of what has arrived wait for the next chunk, so that no tag is cut.
-/

namespace Nullalis.Providers

/-- Where the filter stands: inside of a block, and for how many bytes after a plan a torn tag
is still taken for one. -/
structure FilterState where
  xml_suppress_depth : ℕ := 0
  task_plan_residue_guard : ℕ := 0
deriving DecidableEq

/-- The fields of the stream context that the filter uses. -/
structure LiveContext extends FilterState where
  xml_tail : Bytes := []
  fits : xml_tail.length ≤ 15 := by exact Nat.zero_le 15

def LiveContext.start : LiveContext := {}

/-- What is left of a closing tag of a plan. -/
def residues : List String :=
  ["</task_plan>", "/task_plan>", "task_plan>", "ask_plan>", "sk_plan>", "k_plan>", "_plan>",
    "plan>"]

def tiny_residues : List String :=
  ["lan>", "an>", "n>", ">"]

/-- The length of the first of the literals that the text starts with. -/
def prefixLength (literals : List String) (text : Bytes) : Option ℕ :=
  (literals.find? fun literal => text.startsWith literal).map fun literal =>
    (ascii literal).length

/-- The length of a torn tag of a plan at the start of the text. -/
def taskPlanResiduePrefixLen (text : Bytes) (allow_tiny_tail : Bool) : ℕ :=
  ((prefixLength residues text).or
    (if allow_tiny_tail then prefixLength tiny_residues text else none)).getD 0

/-- One round of the loop outside of a block. -/
def scanOutside (state : FilterState) (text : Bytes) : ScanStep FilterState UInt8 :=
  let residue_len := taskPlanResiduePrefixLen text (0 < state.task_plan_residue_guard)
  if 0 < residue_len then
    { consumed := residue_len, output := [], state := { state with task_plan_residue_guard := 32 } }
  else if text.startsWith "<invoke " then
    { consumed := (ascii "<invoke ").length
      output := []
      state := { state with xml_suppress_depth := state.xml_suppress_depth + 1 } }
  else if text.startsWith "<task_plan>" then
    { consumed := (ascii "<task_plan>").length
      output := []
      state :=
        { xml_suppress_depth := state.xml_suppress_depth + 1, task_plan_residue_guard := 32 } }
  else if text.startsWith "<tool_call>" then
    { consumed := (ascii "<tool_call>").length
      output := []
      state := { state with xml_suppress_depth := state.xml_suppress_depth + 1 } }
  else
    { consumed := 1
      output := text.take 1
      state := { state with task_plan_residue_guard := state.task_plan_residue_guard - 1 } }

/-- One round of the loop inside of a block, whose text is dropped. -/
def scanInside (state : FilterState) (text : Bytes) : ScanStep FilterState UInt8 :=
  let left := { state with xml_suppress_depth := state.xml_suppress_depth - 1 }
  if text.startsWith "</invoke>" then
    { consumed := (ascii "</invoke>").length, output := [], state := left }
  else if text.startsWith "</tool_call>" then
    { consumed := (ascii "</tool_call>").length, output := [], state := left }
  else if text.startsWith "</task_plan>" then
    { consumed := (ascii "</task_plan>").length
      output := []
      state := { left with task_plan_residue_guard := 32 } }
  else { consumed := 1, output := [], state }

/-- One round of the loop. The loops of the filter and of the flush are the same. -/
def scanRound : Scanner FilterState UInt8 UInt8 := fun state text =>
  if state.xml_suppress_depth = 0 then scanOutside state text else scanInside state text

/-- What is carried to the next chunk; the source keeps the last fifteen bytes of it at most. -/
def newCarry (rest : Bytes) : Bytes :=
  if 15 < rest.length then rest.drop (rest.length - 15) else rest

theorem length_newCarry_le (rest : Bytes) : (newCarry rest).length ≤ 15 := by
  rw [newCarry]
  split
  · rw [List.length_drop]
    omega
  · omega

/-- Filter a chunk: what the user sees of it now, and the context afterwards. -/
def filterLiveXmlBlocks (ctx : LiveContext) (chunk : Bytes) : Bytes × LiveContext :=
  let buf := ctx.xml_tail ++ chunk
  let hold_back := min buf.length 15
  let scanned := scanRound.scan hold_back ctx.toFilterState buf
  (scanned.output,
    { scanned.state with xml_tail := newCarry scanned.rest, fits := length_newCarry_le _ })

/-- Filter what is left when the stream ends. -/
def flushLiveXmlTail (ctx : LiveContext) : Bytes × LiveContext :=
  let scanned := scanRound.scan 0 ctx.toFilterState ctx.xml_tail
  (scanned.output, { xml_suppress_depth := scanned.state.xml_suppress_depth })

/-- Filter the chunks of a stream, and what is left at its end. -/
def filterStream (ctx : LiveContext) : List Bytes → Bytes
  | [] => (flushLiveXmlTail ctx).1
  | chunk :: rest =>
      let filtered := filterLiveXmlBlocks ctx chunk
      filtered.1 ++ filterStream filtered.2 rest

/-- Filter the chunks of a stream that is not over yet: what the user sees, and the context. -/
def filterChunks (ctx : LiveContext) (chunks : List Bytes) : Bytes × LiveContext :=
  chunks.foldl
    (fun shown chunk =>
      let filtered := filterLiveXmlBlocks shown.2 chunk
      (shown.1 ++ filtered.1, filtered.2))
    ([], ctx)

/-!
## Chunks do not matter
-/

variable {state : FilterState} {text : Bytes}

theorem prefixLength_append {literals : List String} (more : Bytes)
    (enough : ∀ literal ∈ literals, (ascii literal).length ≤ text.length) :
    prefixLength literals (text ++ more) = prefixLength literals text := by
  rw [prefixLength, prefixLength]
  congr 1
  induction literals with
  | nil => rfl
  | cons literal rest ih =>
      rw [List.find?_cons, List.find?_cons, Bytes.startsWith_append more (enough _ (List.mem_cons_self ..)),
        ih fun other mem => enough other (List.mem_cons_of_mem _ mem)]

theorem prefixLength_le {literals : List String} {length : ℕ}
    (short : ∀ literal ∈ literals, (ascii literal).length ≤ 12)
    (found : prefixLength literals text = some length) : length ≤ 12 := by
  rcases Option.map_eq_some_iff.mp found with ⟨literal, first, rfl⟩
  exact short literal (List.mem_of_find?_eq_some first)

theorem residue_append (more : Bytes) (allow_tiny_tail : Bool) (enough : 12 ≤ text.length) :
    taskPlanResiduePrefixLen (text ++ more) allow_tiny_tail =
      taskPlanResiduePrefixLen text allow_tiny_tail := by
  have long : ∀ literal ∈ residues, (ascii literal).length ≤ 12 := by decide
  have tiny : ∀ literal ∈ tiny_residues, (ascii literal).length ≤ 12 := by decide
  rw [taskPlanResiduePrefixLen, taskPlanResiduePrefixLen,
    prefixLength_append more fun literal mem => Nat.le_trans (long literal mem) enough,
    prefixLength_append more fun literal mem => Nat.le_trans (tiny literal mem) enough]

theorem residue_le (allow_tiny_tail : Bool) :
    taskPlanResiduePrefixLen text allow_tiny_tail ≤ 12 := by
  have long : ∀ literal ∈ residues, (ascii literal).length ≤ 12 := by decide
  have tiny : ∀ literal ∈ tiny_residues, (ascii literal).length ≤ 12 := by decide
  rw [taskPlanResiduePrefixLen]
  cases first : prefixLength residues text with
  | some length => exact prefixLength_le long first
  | none =>
      cases allow_tiny_tail with
      | false => exact Nat.zero_le _
      | true =>
          cases second : prefixLength tiny_residues text with
          | some length => simpa [second] using prefixLength_le tiny second
          | none => simp

theorem consumed_scanOutside (state : FilterState) (text : Bytes) :
    0 < (scanOutside state text).consumed ∧ (scanOutside state text).consumed ≤ 12 := by
  simp only [scanOutside]
  split
  case isTrue found => exact ⟨found, residue_le _⟩
  case isFalse =>
      repeat' split
      all_goals
        dsimp only
        decide

theorem consumed_scanInside (state : FilterState) (text : Bytes) :
    0 < (scanInside state text).consumed ∧ (scanInside state text).consumed ≤ 12 := by
  simp only [scanInside]
  repeat' split
  all_goals
    dsimp only
    decide

theorem looks_scanRound : scanRound.Looks 12 where
  pos := by
    intro state text
    rw [scanRound]
    split
    · exact (consumed_scanOutside state text).1
    · exact (consumed_scanInside state text).1
  bounded := by
    intro state text
    rw [scanRound]
    split
    · exact (consumed_scanOutside state text).2
    · exact (consumed_scanInside state text).2
  localized := by
    intro state text more enough
    have literal {literal : String} (short : (ascii literal).length ≤ 12) :
        Bytes.startsWith (text ++ more) literal = Bytes.startsWith text literal :=
      Bytes.startsWith_append more (Nat.le_trans short enough)
    have first : (text ++ more).take 1 = text.take 1 :=
      List.take_append_of_le_length (by omega)
    simp (disch := decide) only [scanRound, scanOutside, scanInside, residue_append _ _ enough,
      literal, first]

theorem filterStream_eq_scan (ctx : LiveContext) (chunks : List Bytes) :
    filterStream ctx chunks =
      (scanRound.scan 0 ctx.toFilterState (ctx.xml_tail ++ chunks.flatten)).output := by
  induction chunks generalizing ctx with
  | nil => rw [List.flatten_nil, List.append_nil, filterStream, flushLiveXmlTail]
  | cons chunk rest ih =>
      let buf := ctx.xml_tail ++ chunk
      have held : scanRound.scan (min buf.length 15) ctx.toFilterState buf =
          scanRound.scan 15 ctx.toFilterState buf := by
        by_cases long : 15 ≤ buf.length
        · rw [Nat.min_eq_right long]
        · rw [Scanner.scan_of_le (by omega), Scanner.scan_of_le (by omega)]
      have short : (scanRound.scan 15 ctx.toFilterState buf).rest.length ≤ 15 :=
        Scanner.length_rest_le looks_scanRound _ _
      have carried : newCarry (scanRound.scan 15 ctx.toFilterState buf).rest =
          (scanRound.scan 15 ctx.toFilterState buf).rest := if_neg (Nat.not_lt.mpr short)
      have lookahead : 12 ≤ 15 + 1 := by decide
      have whole := Scanner.scan_append looks_scanRound lookahead ctx.toFilterState buf rest.flatten
      rw [List.flatten_cons, ← List.append_assoc, whole, filterStream, ih]
      simp only [filterLiveXmlBlocks, held, carried, buf]

/-- What the user sees of a stream does not depend on its chunks. -/
theorem filterStream_flatten (ctx : LiveContext) (chunks : List Bytes) :
    filterStream ctx chunks = filterStream ctx [chunks.flatten] := by
  rw [filterStream_eq_scan, filterStream_eq_scan, List.flatten_singleton]

/-!
## Parts of a stream
-/

theorem filterChunks_append (ctx : LiveContext) (chunks : List Bytes) (chunk : Bytes) :
    filterChunks ctx (chunks ++ [chunk]) =
      ((filterChunks ctx chunks).1 ++
          (filterLiveXmlBlocks (filterChunks ctx chunks).2 chunk).1,
        (filterLiveXmlBlocks (filterChunks ctx chunks).2 chunk).2) := by
  rw [filterChunks, List.foldl_append]
  rfl

theorem filterStream_eq (ctx : LiveContext) (chunks : List Bytes) :
    filterStream ctx chunks =
      (filterChunks ctx chunks).1 ++ (flushLiveXmlTail (filterChunks ctx chunks).2).1 := by
  suffices whole : ∀ shown : Bytes × LiveContext,
      shown.1 ++ filterStream shown.2 chunks =
        (chunks.foldl
            (fun shown chunk =>
              let filtered := filterLiveXmlBlocks shown.2 chunk
              (shown.1 ++ filtered.1, filtered.2)) shown).1 ++
          (flushLiveXmlTail (chunks.foldl
            (fun shown chunk =>
              let filtered := filterLiveXmlBlocks shown.2 chunk
              (shown.1 ++ filtered.1, filtered.2)) shown).2).1 from
    whole ([], ctx)
  induction chunks with
  | nil => exact fun shown => rfl
  | cons chunk rest ih =>
      intro shown
      rw [List.foldl_cons, ← ih, filterStream, List.append_assoc]

theorem length_filterStream_le (ctx : LiveContext) (chunks : List Bytes) :
    (filterStream ctx chunks).length ≤ (ctx.xml_tail ++ chunks.flatten).length := by
  rw [filterStream_eq_scan]
  refine Scanner.length_output_le fun state text => ?_
  have first : (text.take 1).length + (text.drop 1).length ≤ text.length := by
    rw [List.length_take, List.length_drop]
    omega
  simp only [scanRound, scanOutside, scanInside]
  repeat' split
  all_goals
    first
      | exact first
      | simp

end Nullalis.Providers
