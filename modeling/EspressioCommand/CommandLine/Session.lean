import EspressioCommand.CommandLine

/-!
# A command line whose commands throw

An exception of a command or of the handler leaves `Feed` in the middle of its bytes.  The
line is gone from the buffer by then, but it is in the history only once the command has
returned; and the bytes behind its newline are lost.

`Feeds` says what a call of `Feed` comes to, with or without an exception, and
`feeds_iff_of_session` that it does so in every state that earlier calls have led to, of
`Clear` too, and whatever they have thrown.
-/

namespace EspressioCommand
namespace CommandLine

open Library

variable {σ : Type}

/-- No byte that `Feed` takes for more than a character. -/
def Clean (buffer : CommandString) : Prop :=
  ∀ c ∈ buffer, c ≠ newline ∧ c ≠ carriageReturn ∧ ¬ (c = backspace ∨ c = delete)

/-! ### The stream behind a buffer -/

/-- A clean buffer stands for itself. -/
theorem stream_of_clean {buffer : CommandString} (h : Clean buffer) :
    submittedLines buffer = [] ∧ pendingLine buffer = buffer := by
  induction buffer using List.reverseRecOn with
  | nil => exact ⟨rfl, rfl⟩
  | append_singleton buffer c ih =>
      have hfront : Clean buffer := fun d hd => h d (List.mem_append_left _ hd)
      obtain ⟨hnewline, hreturn, hediting⟩ := h c (by simp)
      obtain ⟨hlines, hpending⟩ := ih hfront
      rw [submittedLines_concat_of_ne hnewline, pendingLine_concat_of_ne hnewline,
        if_neg hreturn, editByte, if_neg hediting, hpending]
      exact ⟨hlines, rfl⟩

/-- What is left behind the last newline is clean. -/
theorem clean_pendingLine (stream : List UInt8) : Clean (pendingLine stream) := by
  induction stream using List.reverseRecOn with
  | nil =>
      intro c hc
      cases hc
  | append_singleton stream value ih =>
      by_cases hnewline : value = newline
      · rw [hnewline, pendingLine_concat_newline]
        intro c hc
        cases hc
      · rw [pendingLine_concat_of_ne hnewline, editByte]
        split_ifs with hreturn hediting
        · exact ih
        · intro c hc
          exact ih c (List.dropLast_subset _ hc)
        · intro c hc
          rcases List.mem_append.mp hc with hold | hnew
          · exact ih c hold
          · obtain rfl := List.mem_singleton.mp hnew
            exact ⟨hnewline, hreturn, hediting⟩

namespace Connection

variable {connection : Connection σ}

/-! ### One call -/

/-- The command line behind the bytes of a stream, none of which has thrown. -/
def behind (history : List CommandString) (stream : List UInt8) : CommandLine where
  buffer := pendingLine stream
  history := history ++ submittedLines stream

/-- `Feeds connection line world bytes ended`: fed with the bytes, the command line has
returned or thrown, and become what `ended` says. -/
inductive Feeds (connection : Connection σ) (line : CommandLine) (world : σ)
    (bytes : List UInt8) : Except Thrown Unit × CommandLine × σ → Prop
  /-- Every line returns. -/
  | completed {after : σ}
      (hlines : (connection.executeLines (submittedLines (line.buffer ++ bytes))).Returns
        world () after) :
      Feeds connection line world bytes
        (.ok (), behind line.history (line.buffer ++ bytes), after)
  /-- The invocation of a line throws: it is not in the history. -/
  | refused {front back : List UInt8} {between after : σ} {e : Thrown}
      (hbytes : bytes = front ++ newline :: back)
      (hlines : (connection.executeLines (submittedLines (line.buffer ++ front))).Returns
        world () between)
      (hpending : pendingLine (line.buffer ++ front) ≠ [])
      (hthrows : (connection.invoke (pendingLine (line.buffer ++ front))).runFrom between =
        (.error e, after)) :
      Feeds connection line world bytes
        (.error e,
          { buffer := [], history := line.history ++ submittedLines (line.buffer ++ front) }, after)
  /-- The handler throws: the line is in the history. -/
  | unhandled {front back : List UInt8} {between invoked after : σ} {result : CommandResult}
      {e : Thrown} (hbytes : bytes = front ++ newline :: back)
      (hlines : (connection.executeLines (submittedLines (line.buffer ++ front))).Returns
        world () between)
      (hpending : pendingLine (line.buffer ++ front) ≠ [])
      (hreturns : (connection.invoke (pendingLine (line.buffer ++ front))).Returns
        between result invoked)
      (hthrows : (connection.handle result).runFrom invoked = (.error e, after)) :
      Feeds connection line world bytes
        (.error e,
          { buffer := [],
            history := line.history ++ submittedLines (line.buffer ++ front ++ [newline]) }, after)

theorem behind_of_clean {line : CommandLine} (h : Clean line.buffer) :
    behind line.history line.buffer = line := by
  obtain ⟨hlines, hpending⟩ := stream_of_clean h
  rw [behind, hlines, hpending, List.append_nil]

/-- What a newline does with a line. -/
theorem runFrom_feed_newline {line : CommandLine} (hline : line.buffer ≠ []) (world : σ) :
    (connection.feed newline).runFrom (line, world) =
      match (connection.invoke line.buffer).runFrom world with
      | (.error e, after) => (.error e, ({ line with buffer := [] }, after))
      | (.ok result, invoked) =>
          (((connection.handle result).runFrom invoked).1,
            ({ buffer := [], history := line.history ++ [line.buffer] },
              ((connection.handle result).runFrom invoked).2)) := by
  have hfeed : (connection.feed newline).runFrom (line, world) =
      (if line.buffer = [] then pure () else do
        let result ← outside (connection.invoke line.buffer)
        update fun after => { after with history := after.history ++ [line.buffer] }
        outside (connection.handle result)).runFrom ({ line with buffer := [] }, world) := by
    unfold feed
    rw [if_neg (by decide), if_neg (by decide), if_neg (by decide)]
    rfl
  rw [hfeed, if_neg hline, Eff.runFrom_bind, runFrom_outside]
  rcases (connection.invoke line.buffer).runFrom world with ⟨e | result, after⟩
  · rfl
  · simp only [Eff.runFrom_bind, runFrom_update, runFrom_outside]

/-- A byte that submits nothing. -/
theorem feed_behind_of_quiet {stream : List UInt8} {value : UInt8}
    (h : ¬ (value = newline ∧ pendingLine stream ≠ [])) (history : List CommandString)
    (world : σ) :
    submittedLines (stream ++ [value]) = submittedLines stream ∧
      (connection.feed value).Returns (behind history stream, world) ()
        (behind history (stream ++ [value]), world) := by
  by_cases hnewline : value = newline
  · have hpending : pendingLine stream = [] := by
      by_contra hne
      exact h ⟨hnewline, hne⟩
    have hlines : submittedLines (stream ++ [value]) = submittedLines stream := by
      rw [hnewline, submittedLines_concat_newline, if_pos hpending, List.append_nil]
    have hafter : behind history (stream ++ [value]) = behind history stream := by
      rw [behind, behind, hlines, hnewline, pendingLine_concat_newline, hpending]
    rw [hafter, hnewline]
    exact ⟨hnewline ▸ hlines, feed_newline_nil _ hpending world⟩
  · have hlines := submittedLines_concat_of_ne hnewline stream
    refine ⟨hlines, ?_⟩
    rw [behind, behind, hlines, pendingLine_concat_of_ne hnewline]
    exact feed_of_ne hnewline _ world

/-- A newline behind a line. -/
theorem behind_concat_newline {stream : List UInt8} (h : pendingLine stream ≠ [])
    (history : List CommandString) :
    submittedLines (stream ++ [newline]) = submittedLines stream ++ [pendingLine stream] ∧
      behind history (stream ++ [newline]) =
        { buffer := [], history := (behind history stream).history ++ [pendingLine stream] } := by
  have hlines : submittedLines (stream ++ [newline]) =
      submittedLines stream ++ [pendingLine stream] := by
    rw [submittedLines_concat_newline, if_neg h]
  refine ⟨hlines, ?_⟩
  rw [behind, behind, hlines, pendingLine_concat_newline, List.append_assoc]

/-- The bytes of a stream whose lines return lead behind it. -/
theorem feedBuffer_behind {line : CommandLine} (hclean : Clean line.buffer)
    {bytes : List UInt8} {world after : σ}
    (h : (connection.executeLines (submittedLines (line.buffer ++ bytes))).Returns world ()
      after) :
    (connection.feedBuffer bytes).Returns (line, world) ()
      (behind line.history (line.buffer ++ bytes), after) := by
  induction bytes using List.reverseRecOn generalizing after with
  | nil =>
      rw [List.append_nil, (stream_of_clean hclean).1] at h
      obtain ⟨-, rfl⟩ := Prod.mk.inj h
      rw [List.append_nil, behind_of_clean hclean]
      rfl
  | append_singleton bytes value ih =>
      rw [← List.append_assoc] at h ⊢
      rw [feedBuffer_append]
      by_cases hsubmits : value = newline ∧ pendingLine (line.buffer ++ bytes) ≠ []
      · obtain ⟨rfl, hpending⟩ := hsubmits
        obtain ⟨hlines, hafter⟩ := behind_concat_newline hpending line.history
        rw [hlines, executeLines_append] at h
        obtain ⟨_, between, hfront, hlast⟩ := Eff.runFrom_bind_eq_ok.mp h
        obtain ⟨_, done, hexecute, hnone⟩ := Eff.runFrom_bind_eq_ok.mp hlast
        obtain ⟨-, rfl⟩ := Prod.mk.inj hnone
        refine Eff.runFrom_bind_eq_ok.mpr ⟨(), _, ih hfront, ?_⟩
        rw [hafter]
        exact Eff.runFrom_bind_eq_ok.mpr ⟨(), _, feed_newline hpending hexecute, rfl⟩
      · obtain ⟨hlines, hfeed⟩ :=
          @feed_behind_of_quiet _ connection _ _ hsubmits line.history after
        rw [hlines] at h
        refine Eff.runFrom_bind_eq_ok.mpr ⟨(), _, ih h, ?_⟩
        exact Eff.runFrom_bind_eq_ok.mpr ⟨(), _, hfeed, rfl⟩

theorem Feeds.clean {line : CommandLine} {world : σ} {bytes : List UInt8}
    {ended : Except Thrown Unit × CommandLine × σ}
    (h : Feeds connection line world bytes ended) : Clean ended.2.1.buffer := by
  have hnil : Clean [] := by
    intro c hc
    cases hc
  cases h with
  | completed _ => exact clean_pendingLine _
  | refused _ _ _ _ => exact hnil
  | unhandled _ _ _ _ _ => exact hnil

/-- More bytes do not change what an exception has led to. -/
theorem Feeds.append_of_error {line : CommandLine} {world : σ} {bytes : List UInt8} {e : Thrown}
    {reached : CommandLine × σ} (h : Feeds connection line world bytes (.error e, reached))
    (more : List UInt8) : Feeds connection line world (bytes ++ more) (.error e, reached) := by
  cases h with
  | refused hbytes hlines hpending hthrows =>
      rw [hbytes, List.append_assoc]
      exact .refused rfl hlines hpending hthrows
  | unhandled hbytes hlines hpending hreturns hthrows =>
      rw [hbytes, List.append_assoc]
      exact .unhandled rfl hlines hpending hreturns hthrows

/-- The newline behind a line that is executed, with all that can become of the line. -/
theorem feeds_newline {line : CommandLine} {bytes : List UInt8} {world between : σ}
    (hlines : (connection.executeLines (submittedLines (line.buffer ++ bytes))).Returns world ()
      between) (hpending : pendingLine (line.buffer ++ bytes) ≠ []) :
    Feeds connection line world (bytes ++ [newline])
      ((connection.feed newline).runFrom
        (behind line.history (line.buffer ++ bytes), between)) := by
  obtain ⟨hsubmitted, hafter⟩ := behind_concat_newline hpending line.history
  have hrun : (connection.feed newline).runFrom
      (behind line.history (line.buffer ++ bytes), between) = _ :=
    runFrom_feed_newline hpending between
  rw [hrun]
  have hbuffer : (behind line.history (line.buffer ++ bytes)).buffer =
      pendingLine (line.buffer ++ bytes) := rfl
  rw [hbuffer, ← hafter]
  rcases hinvoke : (connection.invoke (pendingLine (line.buffer ++ bytes))).runFrom between with
    ⟨e | result, invoked⟩
  · exact .refused rfl hlines hpending hinvoke
  · rcases hhandle : (connection.handle result).runFrom invoked with ⟨e | ⟨⟩, after⟩
    · have hstream : behind line.history (line.buffer ++ bytes ++ [newline]) =
          { buffer := [],
            history := line.history ++ submittedLines (line.buffer ++ bytes ++ [newline]) } := by
        rw [behind, pendingLine_concat_newline]
      simp only [hhandle]
      rw [hstream]
      exact .unhandled rfl hlines hpending hinvoke hhandle
    · have hexecute : (connection.executeLines
          (submittedLines (line.buffer ++ (bytes ++ [newline])))).Returns world () after := by
        rw [← List.append_assoc, hsubmitted, executeLines_append]
        refine Eff.runFrom_bind_eq_ok.mpr ⟨(), between, hlines, ?_⟩
        refine Eff.runFrom_bind_eq_ok.mpr ⟨(), after, ?_, rfl⟩
        exact Eff.runFrom_bind_eq_ok.mpr ⟨result, invoked, hinvoke, hhandle⟩
      simp only [hhandle]
      rw [List.append_assoc]
      exact .completed hexecute

/-- **Every call comes to what `Feeds` says.** -/
theorem feeds_feedBuffer {line : CommandLine} (hclean : Clean line.buffer) (bytes : List UInt8)
    (world : σ) :
    Feeds connection line world bytes ((connection.feedBuffer bytes).runFrom (line, world)) := by
  induction bytes using List.reverseRecOn with
  | nil =>
      have hlines : (connection.executeLines (submittedLines (line.buffer ++ []))).Returns
          world () world := by
        rw [List.append_nil, (stream_of_clean hclean).1]
        rfl
      have hcompleted := Feeds.completed hlines
      rw [List.append_nil, behind_of_clean hclean] at hcompleted
      exact hcompleted
  | append_singleton bytes value ih =>
      rw [feedBuffer_append, Eff.runFrom_bind]
      rcases hrun : (connection.feedBuffer bytes).runFrom (line, world) with
        ⟨e | ⟨⟩, reached, between⟩
      · rw [hrun] at ih
        exact ih.append_of_error [value]
      · rw [hrun] at ih
        have hone : connection.feedBuffer [value] = connection.feed value :=
          (feedChunk_eq connection (.character value)).symm
        simp only [hone]
        generalize hreached : reached = last at ih
        cases ih with
        | completed hlines =>
            subst hreached
            by_cases hsubmits : value = newline ∧ pendingLine (line.buffer ++ bytes) ≠ []
            · obtain ⟨rfl, hpending⟩ := hsubmits
              exact feeds_newline hlines hpending
            · obtain ⟨hquiet, hfeed⟩ :=
                @feed_behind_of_quiet _ connection _ _ hsubmits line.history between
              have hstep : (connection.feed value).runFrom
                  (behind line.history (line.buffer ++ bytes), between) =
                    (.ok (), (behind line.history (line.buffer ++ bytes ++ [value]), between)) :=
                hfeed
              rw [hstep]
              rw [← hquiet, List.append_assoc] at hlines
              rw [List.append_assoc]
              exact .completed hlines

/-- And nothing else comes of it. -/
theorem Feeds.runFrom_eq {line : CommandLine} (hclean : Clean line.buffer) {bytes : List UInt8}
    {world : σ} {ended : Except Thrown Unit × CommandLine × σ}
    (h : Feeds connection line world bytes ended) :
    (connection.feedBuffer bytes).runFrom (line, world) = ended := by
  -- the bytes in front of the newline lead behind them, and the newline throws
  have hstopped {front back : List UInt8} {between : σ} {e : Thrown} {reached : CommandLine × σ}
      (hlines : (connection.executeLines (submittedLines (line.buffer ++ front))).Returns
        world () between)
      (hnewline : (connection.feed newline).runFrom
        (behind line.history (line.buffer ++ front), between) = (.error e, reached)) :
      (connection.feedBuffer (front ++ newline :: back)).runFrom (line, world) =
        (.error e, reached) := by
    have hfront : (connection.feedBuffer front).runFrom (line, world) = _ :=
      feedBuffer_behind hclean hlines
    rw [feedBuffer_append, Eff.runFrom_bind, hfront]
    show (connection.feed newline >>= fun _ => connection.feedBuffer back).runFrom _ = _
    rw [Eff.runFrom_bind, hnewline]
  cases h with
  | completed hlines => exact feedBuffer_behind hclean hlines
  | @refused front _ between after e hbytes hlines hpending hthrows =>
      rw [hbytes]
      refine hstopped hlines ?_
      have hrun : (connection.invoke (behind line.history (line.buffer ++ front)).buffer).runFrom
          between = (.error e, after) := hthrows
      rw [runFrom_feed_newline hpending, hrun]
      rfl
  | @unhandled front _ between invoked after result e hbytes hlines hpending hreturns hthrows =>
      rw [hbytes]
      refine hstopped hlines ?_
      have hrun : (connection.invoke (behind line.history (line.buffer ++ front)).buffer).runFrom
          between = (.ok result, invoked) := hreturns
      rw [runFrom_feed_newline hpending, hrun]
      simp only [hthrows]
      rw [(behind_concat_newline hpending line.history).1]
      show _ = (Except.error e, ({ buffer := [], history := _ } : CommandLine), after)
      rw [← List.append_assoc]
      rfl

/-! ### Sessions -/

/-- A call on the command line that changes it. -/
inductive Operation
  | feed (chunk : Chunk)
  | clear

/-- The call; whoever makes it goes on after an exception. -/
def perform (connection : Connection σ) (state : CommandLine × σ) :
    Operation → CommandLine × σ
  | .feed chunk => ((connection.feedChunk chunk).runFrom state).2
  -- `CommandLine::Clear`
  | .clear => ({ state.1 with buffer := [] }, state.2)

/-- The buffer stays clean, whatever is thrown. -/
theorem clean_session (connection : Connection σ) (operations : List Operation) (world : σ) :
    Clean (operations.foldl connection.perform ({}, world)).1.buffer := by
  have hstep {state : CommandLine × σ} (hclean : Clean state.1.buffer) (operation : Operation) :
      Clean (connection.perform state operation).1.buffer := by
    cases operation with
    | feed chunk =>
        rw [perform, feedChunk_eq]
        exact (feeds_feedBuffer hclean chunk.bytes state.2).clean
    | clear =>
        intro c hc
        cases hc
  have hrun {state : CommandLine × σ} (hclean : Clean state.1.buffer) :
      Clean (operations.foldl connection.perform state).1.buffer := by
    induction operations generalizing state with
    | nil => exact hclean
    | cons operation rest ih => exact ih (hstep hclean operation)
  refine hrun ?_
  intro c hc
  cases hc

/-- **What a call of `Feed` comes to**, behind any calls before it: it returns after all of
its lines, or throws what the first line throws that does, with this line gone from the
buffer and the bytes behind it lost. -/
theorem feeds_iff_of_session (connection : Connection σ) (operations : List Operation)
    (world : σ) (chunk : Chunk) (ended : Except Thrown Unit × CommandLine × σ) :
    Feeds connection (operations.foldl connection.perform ({}, world)).1
        (operations.foldl connection.perform ({}, world)).2 chunk.bytes ended ↔
      (connection.feedChunk chunk).runFrom (operations.foldl connection.perform ({}, world)) =
        ended := by
  have hclean := clean_session connection operations world
  rw [feedChunk_eq]
  constructor
  · exact fun h => h.runFrom_eq hclean
  · rintro rfl
    exact feeds_feedBuffer hclean chunk.bytes _

end Connection

end CommandLine
end EspressioCommand
