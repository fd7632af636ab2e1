import EspressioCommand.Library.Segments
import EspressioCommand.Registry.Invoke
import Mathlib.Data.List.Induction

/-!
# `CommandLine`

The command line gets a stream of bytes in pieces of any size, one byte at a time.  What
it should make of the stream is said of the whole stream: `submittedLines` and
`pendingLine` cut it at the newlines and edit each segment by itself.
`feedChunks_returns` says that the bytes lead there, with the registry invoked and
the handler called for each line in between.
-/

namespace EspressioCommand

open Library

def carriageReturn : UInt8 := 13
def backspace : UInt8 := 8
def delete : UInt8 := 127

/-- `CommandLine`: what was typed since the last newline, and the lines before it.  The
prompt is left out, since no input depends on it. -/
structure CommandLine where
  buffer : CommandString := []
  history : List CommandString := []
  deriving DecidableEq

namespace CommandLine

variable {σ : Type}

/-- What a command line is bound to.  Commands may change the registry, so the registry is
that of the current state. -/
structure Connection (σ : Type) where
  platform : Platform
  registry : σ → CommandRegistry σ
  handler : Option (CommandResult → Eff σ Unit) := none

/-! ### The bytes -/

/-- Code of the user, which leaves the command line alone. -/
def outside {α : Type} (x : Eff σ α) : Eff (CommandLine × σ) α :=
  fun state => ((x.runFrom state.2).1, (state.1, (x.runFrom state.2).2))

def update (f : CommandLine → CommandLine) : Eff (CommandLine × σ) Unit :=
  modify fun state => (f state.1, state.2)

namespace Connection

/-- `registry_.Invoke(line)`. -/
def invoke (connection : Connection σ) (line : CommandString) : Eff σ CommandResult := do
  let state ← get
  (connection.registry state).invokeText connection.platform line

/-- `if (handler_) handler_(result)`. -/
def handle (connection : Connection σ) (result : CommandResult) : Eff σ Unit :=
  match connection.handler with
  | none => pure ()
  | some handler => handler result

/-- `CommandLine::Feed(char)`. -/
def feed (connection : Connection σ) (value : UInt8) : Eff (CommandLine × σ) Unit := do
  if value = carriageReturn then return ()
  else if value = backspace ∨ value = delete then
    update fun line => { line with buffer := line.buffer.dropLast }
  else if value ≠ newline then
    update fun line => { line with buffer := line.buffer ++ [value] }
  else
    let state ← get
    let line := state.1.buffer
    update fun line => { line with buffer := [] }
    if line = [] then return ()
    else
      let result ← outside (connection.invoke line)
      -- a line whose invocation throws does not come here
      update fun after => { after with history := after.history ++ [line] }
      outside (connection.handle result)

/-- `CommandLine::Feed(const char*, std::size_t)`. -/
def feedBuffer (connection : Connection σ) : List UInt8 → Eff (CommandLine × σ) Unit
  | [] => pure ()
  | value :: rest => do
      connection.feed value
      connection.feedBuffer rest

/-- `CommandLine::Feed(std::string_view)`. -/
def feedString (connection : Connection σ) (data : CommandString) :
    Eff (CommandLine × σ) Unit :=
  connection.feedBuffer data

end Connection

/-- A call of one of the three `Feed` functions. -/
inductive Chunk where
  | character (value : UInt8)
  | buffer (data : List UInt8)
  | string (data : CommandString)

def Chunk.bytes : Chunk → List UInt8
  | character value => [value]
  | buffer data => data
  | string data => data

namespace Connection

def feedChunk (connection : Connection σ) : Chunk → Eff (CommandLine × σ) Unit
  | .character value => connection.feed value
  | .buffer data => connection.feedBuffer data
  | .string data => connection.feedString data

/-- The calls one after the other. -/
def feedChunks (connection : Connection σ) : List Chunk → Eff (CommandLine × σ) Unit
  | [] => pure ()
  | chunk :: rest => do
      connection.feedChunk chunk
      connection.feedChunks rest

end Connection

/-! ### The stream -/

/-- A byte of a segment, after the bytes that are still present. -/
def editByte (present : CommandString) (value : UInt8) : CommandString :=
  if value = backspace ∨ value = delete then present.dropLast else present ++ [value]

/-- A segment without its carriage returns, where each backspace has deleted the last byte
still present. -/
def edit (segment : CommandString) : CommandString :=
  (segment.filter fun value => value ≠ carriageReturn).foldl editByte []

/-- The edited segments that a newline ends, without the empty ones. -/
def submittedLines (stream : List UInt8) : List CommandString :=
  ((terminated newline stream).map edit).filter fun line => line ≠ []

/-- What is left of the segment behind the last newline. -/
def pendingLine (stream : List UInt8) : CommandString := edit (unterminated newline stream)

/-- The command line that the stream should lead to. -/
def ofStream (stream : List UInt8) : CommandLine where
  buffer := pendingLine stream
  history := submittedLines stream

/-- One line: the registry is invoked and the handler gets the result. -/
def Connection.execute (connection : Connection σ) (line : CommandString) : Eff σ Unit :=
  connection.invoke line >>= connection.handle

/-- The lines one after the other, each once. -/
def Connection.executeLines (connection : Connection σ) : List CommandString → Eff σ Unit
  | [] => pure ()
  | line :: rest => do
      connection.execute line
      connection.executeLines rest

/-! ### One byte more -/

theorem edit_concat (segment : CommandString) (value : UInt8) :
    edit (segment ++ [value]) =
      if value = carriageReturn then edit segment else editByte (edit segment) value := by
  rw [edit, List.filter_append]
  by_cases hvalue : value = carriageReturn
  · rw [if_pos hvalue, List.filter_cons_of_neg (by simpa using hvalue), List.filter_nil,
      List.append_nil]
    rfl
  · rw [if_neg hvalue, List.filter_cons_of_pos (by simpa using hvalue), List.filter_nil,
      List.foldl_append]
    rfl

theorem submittedLines_concat_of_ne {value : UInt8} (h : value ≠ newline)
    (stream : List UInt8) : submittedLines (stream ++ [value]) = submittedLines stream := by
  rw [submittedLines, terminated_concat_of_ne h, submittedLines]

theorem pendingLine_concat_of_ne {value : UInt8} (h : value ≠ newline) (stream : List UInt8) :
    pendingLine (stream ++ [value]) =
      if value = carriageReturn then pendingLine stream
      else editByte (pendingLine stream) value := by
  rw [pendingLine, unterminated_concat_of_ne h, edit_concat, pendingLine]

/-- The lines that a newline submits: one, or none where nothing is pending. -/
theorem submittedLines_concat_newline (stream : List UInt8) :
    submittedLines (stream ++ [newline]) =
      submittedLines stream ++ if pendingLine stream = [] then [] else [pendingLine stream] := by
  have hlast : ([pendingLine stream].filter fun line => line ≠ []) =
      if pendingLine stream = [] then [] else [pendingLine stream] := by
    split_ifs with hpending
    · exact List.filter_cons_of_neg (by simpa using hpending)
    · exact List.filter_cons_of_pos (by simpa using hpending)
  rw [← hlast, submittedLines, submittedLines, terminated_concat_self, List.map_append,
    List.filter_append]
  rfl

theorem pendingLine_concat_newline (stream : List UInt8) :
    pendingLine (stream ++ [newline]) = [] := by
  rw [pendingLine, unterminated_concat_self]
  rfl

/-! ### One step of the command line -/

@[simp] theorem runFrom_outside {α : Type} (x : Eff σ α) (line : CommandLine) (world : σ) :
    (outside x).runFrom (line, world) =
      ((x.runFrom world).1, (line, (x.runFrom world).2)) := rfl

@[simp] theorem runFrom_update (f : CommandLine → CommandLine) (line : CommandLine)
    (world : σ) : (update f).runFrom (line, world) = (.ok (), (f line, world)) := rfl

theorem returns_outside {α : Type} {x : Eff σ α} {world after : σ} {a : α}
    (h : x.Returns world a after) (line : CommandLine) :
    (outside x).Returns (line, world) a (line, after) := by
  rw [Eff.Returns] at h ⊢
  rw [runFrom_outside, h]

namespace Connection

variable {connection : Connection σ}

/-- A byte that is not a newline edits the buffer. -/
theorem feed_of_ne {value : UInt8} (h : value ≠ newline) (line : CommandLine) (world : σ) :
    (connection.feed value).Returns (line, world) ()
      ({ line with
        buffer := if value = carriageReturn then line.buffer else editByte line.buffer value },
        world) := by
  unfold feed editByte Eff.Returns
  split_ifs
  · rfl
  · rfl
  · rfl

/-- A newline with nothing pending does nothing. -/
theorem feed_newline_nil (line : CommandLine) (hline : line.buffer = []) (world : σ) :
    (connection.feed newline).Returns (line, world) () (line, world) := by
  obtain ⟨buffer, history⟩ := line
  obtain rfl : buffer = [] := hline
  rfl

/-- A newline with a line pending executes this line, and puts it at the end of the
history. -/
theorem feed_newline {line : CommandLine} (hline : line.buffer ≠ []) {world after : σ}
    (h : (connection.execute line.buffer).Returns world () after) :
    (connection.feed newline).Returns (line, world) ()
      ({ buffer := [], history := line.history ++ [line.buffer] }, after) := by
  obtain ⟨result, between, hinvoke, hhandle⟩ := Eff.runFrom_bind_eq_ok.mp h
  unfold feed Eff.Returns
  rw [if_neg (by decide), if_neg (by decide), if_neg (by decide)]
  refine Eff.runFrom_bind_eq_ok.mpr ⟨(line, world), (line, world), rfl, ?_⟩
  refine Eff.runFrom_bind_eq_ok.mpr
    ⟨(), ({ line with buffer := [] }, world), runFrom_update _ _ _, ?_⟩
  rw [if_neg hline]
  refine Eff.runFrom_bind_eq_ok.mpr
    ⟨result, ({ line with buffer := [] }, between), returns_outside hinvoke _, ?_⟩
  refine Eff.runFrom_bind_eq_ok.mpr ⟨(), _, runFrom_update _ _ _, ?_⟩
  exact returns_outside hhandle _

/-- **Step lemma.**  One byte more leads from the command line of a stream to that of the
longer stream, when the lines it submits are executed. -/
theorem feed_returns {stream : List UInt8} {value : UInt8} {lines : List CommandString}
    (hlines : submittedLines (stream ++ [value]) = submittedLines stream ++ lines)
    {world after : σ} (h : (connection.executeLines lines).Returns world () after) :
    (connection.feed value).Returns (ofStream stream, world) ()
      (ofStream (stream ++ [value]), after) := by
  by_cases hvalue : value = newline
  · subst hvalue
    rw [submittedLines_concat_newline, List.append_cancel_left_eq] at hlines
    have hafter : ofStream (stream ++ [newline]) =
        { buffer := [],
          history := submittedLines stream ++
            if pendingLine stream = [] then [] else [pendingLine stream] } := by
      rw [ofStream, submittedLines_concat_newline, pendingLine_concat_newline]
    rw [hafter]
    by_cases hpending : pendingLine stream = []
    · -- an empty line is not submitted
      rw [if_pos hpending] at hlines ⊢
      subst hlines
      obtain ⟨-, rfl⟩ := Prod.mk.inj h
      rw [List.append_nil, ← hpending]
      exact feed_newline_nil (ofStream stream) hpending world
    · rw [if_neg hpending] at hlines ⊢
      subst hlines
      obtain ⟨_, between, hexecute, hnone⟩ := Eff.runFrom_bind_eq_ok.mp h
      obtain ⟨-, rfl⟩ := Prod.mk.inj hnone
      exact feed_newline hpending hexecute
  · rw [submittedLines_concat_of_ne hvalue] at hlines
    obtain rfl : lines = [] := List.self_eq_append_right.mp hlines
    obtain ⟨-, rfl⟩ := Prod.mk.inj h
    rw [ofStream, ofStream, submittedLines_concat_of_ne hvalue, pendingLine_concat_of_ne hvalue]
    exact feed_of_ne hvalue (ofStream stream) world

/-! ### Whole streams -/

theorem executeLines_append (connection : Connection σ) (front back : List CommandString) :
    connection.executeLines (front ++ back) =
      connection.executeLines front >>= fun _ => connection.executeLines back := by
  induction front with
  | nil => rw [List.nil_append, executeLines, pure_bind]
  | cons line front ih =>
      rw [List.cons_append, executeLines, executeLines, ih, bind_assoc]

theorem feedBuffer_append (connection : Connection σ) (front back : List UInt8) :
    connection.feedBuffer (front ++ back) =
      connection.feedBuffer front >>= fun _ => connection.feedBuffer back := by
  induction front with
  | nil => rw [List.nil_append, feedBuffer, pure_bind]
  | cons value front ih =>
      rw [List.cons_append, feedBuffer, feedBuffer, ih, bind_assoc]

/-- One call is the bytes it hands over. -/
theorem feedChunk_eq (connection : Connection σ) (chunk : Chunk) :
    connection.feedChunk chunk = connection.feedBuffer chunk.bytes := by
  cases chunk with
  | character value =>
      show connection.feed value = connection.feed value >>= fun _ => pure ()
      rw [bind_pure_unit]
  | buffer data => rfl
  | string data => rfl

/-- **The chunks do not matter**, only the stream they make. -/
theorem feedChunks_eq (connection : Connection σ) (chunks : List Chunk) :
    connection.feedChunks chunks = connection.feedBuffer (chunks.flatMap Chunk.bytes) := by
  induction chunks with
  | nil => rfl
  | cons chunk chunks ih =>
      rw [feedChunks, ih, List.flatMap_cons, feedBuffer_append, feedChunk_eq]

/-- A longer stream has the lines of the shorter one at the start. -/
theorem exists_submittedLines_concat (stream : List UInt8) (value : UInt8) :
    ∃ lines, submittedLines (stream ++ [value]) = submittedLines stream ++ lines := by
  by_cases hvalue : value = newline
  · subst hvalue
    exact ⟨_, submittedLines_concat_newline stream⟩
  · exact ⟨[], by rw [submittedLines_concat_of_ne hvalue, List.append_nil]⟩

/-- **Run lemma.**  The bytes of a stream lead to the command line of the stream. -/
theorem feedBuffer_returns {stream : List UInt8} {world after : σ}
    (h : (connection.executeLines (submittedLines stream)).Returns world () after) :
    (connection.feedBuffer stream).Returns ({}, world) () (ofStream stream, after) := by
  -- the induction takes the last byte off
  induction stream using List.reverseRecOn generalizing after with
  | nil =>
      obtain ⟨-, rfl⟩ := Prod.mk.inj h
      rfl
  | append_singleton stream value ih =>
      obtain ⟨lines, hlines⟩ := exists_submittedLines_concat stream value
      rw [hlines, executeLines_append] at h
      obtain ⟨_, between, hfront, hback⟩ := Eff.runFrom_bind_eq_ok.mp h
      have hfeed := feed_returns hlines hback
      rw [feedBuffer_append]
      refine Eff.runFrom_bind_eq_ok.mpr ⟨(), (ofStream stream, between), ih hfront, ?_⟩
      exact Eff.runFrom_bind_eq_ok.mpr ⟨(), _, hfeed, rfl⟩

/-- **Line editing.**  However the stream is cut into calls, a fresh command line ends with
the edited lines of the stream as its history and the edited rest as its buffer, and what
happened outside is that these lines were executed, each once and in this order. -/
theorem feedChunks_returns {chunks : List Chunk} {world after : σ}
    (h : (connection.executeLines
      (submittedLines (chunks.flatMap Chunk.bytes))).Returns world () after) :
    (connection.feedChunks chunks).Returns ({}, world) ()
      ({ buffer := pendingLine (chunks.flatMap Chunk.bytes),
         history := submittedLines (chunks.flatMap Chunk.bytes) }, after) := by
  rw [feedChunks_eq]
  exact feedBuffer_returns h

/-- A registry without commands, and a handler that keeps the messages. -/
def messages : Connection (List CommandString) where
  platform := .withoutFloatingText
  registry := fun _ => .initial
  handler := some fun result => modify fun seen => seen ++ [result.message]

/-- `help` with a slip in it, an empty line, `?` behind a backspace too many, and an unfinished
line. -/
def typedHelp : List Chunk :=
  [.character 104, .buffer [120, backspace, 101], .string (text "lp\r\n\n"),
    .buffer [backspace, 63, newline, 108], .string (text "e")]

theorem feedChunks_returns_help :
    (messages.feedChunks typedHelp).Returns ({}, []) ()
      ({ buffer := text "le", history := [text "help", text "?"] },
        [text "Commands:\n", text "Commands:\n"]) := by
  have hhistory : submittedLines (typedHelp.flatMap Chunk.bytes) = [text "help", text "?"] := by
    decide
  have hbuffer : pendingLine (typedHelp.flatMap Chunk.bytes) = text "le" := by decide
  have hexecute : (messages.executeLines
      (submittedLines (typedHelp.flatMap Chunk.bytes))).Returns [] ()
        [text "Commands:\n", text "Commands:\n"] := by
    rw [hhistory]
    rfl
  rw [← hhistory, ← hbuffer]
  exact feedChunks_returns hexecute

end Connection

end CommandLine

end EspressioCommand
