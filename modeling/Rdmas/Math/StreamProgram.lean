import Mathlib.Data.List.Infix
import Rdmas.Math.Runs

/-! # Programs that talk over a reliable stream

A program writes and reads blocks, one after the other, and ends with a result. The stream carries a
block in chunks of any size; its queues may be bounded. `Sends` and `Receives` say what a program
transfers until it goes on as another one, however the transfers are cut, and how many steps that takes.
`Underway` is the invariant of a request and its answer: it is kept by every step of either party, each
step spends some of the work left, and until the asking party is done one of the two can move. `feed` is
what a program that only reads makes of the symbols that come in, and `drive` runs a program to where it
goes on.
-/

/-- A sequential program over symbols `α` with results `β`. -/
inductive StreamProgram (α β : Type) where
  | done (result : β)
  | writeAll (block : List α) (next : StreamProgram α β)
  | readExact (count : ℕ) (next : List α → StreamProgram α β)

namespace StreamProgram

variable {α β γ : Type}

/-- A queue of a stream has room for so many symbols. -/
def fits (capacity : Option ℕ) (length : ℕ) : Bool := capacity.all (length ≤ ·)

/-- One step of a program, with the rest of the program, of the incoming and of the outgoing queue. A
block moves in chunks; when none of it is left the program goes on, and a finished program goes on as
`loop` says. -/
def advance (capacity : Option ℕ) (loop : β → Option (StreamProgram α β))
    (incoming outgoing : List α) (chunk : ℕ) :
    StreamProgram α β → Option (StreamProgram α β × List α × List α)
  | .done result =>
      if chunk = 0 then (loop result).map fun next => (next, incoming, outgoing) else none
  | .writeAll block next =>
      if block.length = 0 then if chunk = 0 then some (next, incoming, outgoing) else none
      else if 0 < chunk ∧ chunk ≤ block.length ∧ fits capacity (outgoing.length + chunk) then
        some (.writeAll (block.drop chunk) next, incoming, outgoing ++ block.take chunk)
      else none
  | .readExact count next =>
      if count = 0 then if chunk = 0 then some (next [], incoming, outgoing) else none
      else if 0 < chunk ∧ chunk ≤ count ∧ chunk ≤ incoming.length then
        some (.readExact (count - chunk) fun more => next (incoming.take chunk ++ more),
          incoming.drop chunk, outgoing)
      else none

/-- The program writes exactly the given symbols before it goes on as `final`, and takes at most `work`
steps for it. -/
inductive Sends (loop : β → Option (StreamProgram α β)) (final : StreamProgram α β) :
    StreamProgram α β → List α → ℕ → Prop
  | here {work} : Sends loop final final [] work
  | again {result next symbols work} (goesOn : loop result = some next)
      (onward : Sends loop final next symbols work) :
      Sends loop final (.done result) symbols (work + 1)
  | write {block next symbols work} (onward : Sends loop final next symbols work) :
      Sends loop final (.writeAll block next) (block ++ symbols) (block.length + work + 1)
  | skip {next symbols work} (onward : Sends loop final (next []) symbols work) :
      Sends loop final (.readExact 0 next) symbols (work + 1)

/-- The program reads exactly the given symbols before it goes on as `final`, and takes at most `work`
steps for it. -/
inductive Receives (loop : β → Option (StreamProgram α β)) (final : StreamProgram α β) :
    StreamProgram α β → List α → ℕ → Prop
  | here {work} : Receives loop final final [] work
  | again {result next symbols work} (goesOn : loop result = some next)
      (onward : Receives loop final next symbols work) :
      Receives loop final (.done result) symbols (work + 1)
  | skip {next symbols work} (onward : Receives loop final next symbols work) :
      Receives loop final (.writeAll [] next) symbols (work + 1)
  | read {block next symbols work} (onward : Receives loop final (next block) symbols work) :
      Receives loop final (.readExact block.length next) (block ++ symbols) (block.length + work + 1)

section Transfers

variable {capacity : Option ℕ} {loop : β → Option (StreamProgram α β)}
variable {program final other : StreamProgram α β} {symbols more incoming outgoing : List α}
variable {moved : StreamProgram α β × List α × List α} {work extra chunk : ℕ}

theorem Sends.mono (sends : Sends loop final program symbols work) (more : work ≤ extra) :
    Sends loop final program symbols extra := by
  induction sends generalizing extra with
  | here => exact .here
  | again goesOn _ ih =>
    rw [← Nat.sub_add_cancel (show 1 ≤ extra by omega)]
    exact .again goesOn (ih (by omega))
  | @write block _ _ left _ ih =>
    rw [show extra = block.length + (extra - block.length - 1) + 1 by omega]
    exact .write (ih (by omega))
  | skip _ ih =>
    rw [← Nat.sub_add_cancel (show 1 ≤ extra by omega)]
    exact .skip (ih (by omega))

theorem Receives.mono (receives : Receives loop final program symbols work) (more : work ≤ extra) :
    Receives loop final program symbols extra := by
  induction receives generalizing extra with
  | here => exact .here
  | again goesOn _ ih =>
    rw [← Nat.sub_add_cancel (show 1 ≤ extra by omega)]
    exact .again goesOn (ih (by omega))
  | skip _ ih =>
    rw [← Nat.sub_add_cancel (show 1 ≤ extra by omega)]
    exact .skip (ih (by omega))
  | @read block _ _ left _ ih =>
    rw [show extra = block.length + (extra - block.length - 1) + 1 by omega]
    exact .read (ih (by omega))

/-- A program that sends nothing before it reads is a program that reads. -/
theorem Sends.receives (quiet : Sends loop other program [] extra)
    (reads : Receives loop final other symbols work) :
    Receives loop final program symbols (extra + work) := by
  generalize nothing : ([] : List α) = sent at quiet
  induction quiet with
  | here => exact reads.mono (Nat.le_add_left _ _)
  | again goesOn _ ih =>
    rw [Nat.add_right_comm]
    exact .again goesOn (ih nothing)
  | write _ ih =>
    obtain ⟨rfl, rest⟩ := List.append_eq_nil_iff.mp nothing.symm
    rw [List.length_nil, Nat.zero_add, Nat.add_right_comm]
    exact .skip (ih rest.symm)
  | @skip next _ _ _ ih =>
    have onward := @Receives.read _ _ loop final [] next symbols _ (ih nothing)
    rwa [List.nil_append, List.length_nil, Nat.zero_add, Nat.add_right_comm] at onward

/-- A block of known length is sent, then the rest. -/
theorem Sends.block {block : List α} {next : StreamProgram α β} {count : ℕ}
    (length : block.length = count) (onward : Sends loop final next symbols work) :
    Sends loop final (.writeAll block next) (block ++ symbols) (count + work + 1) :=
  length ▸ .write onward

/-- A block of the expected length is received, then the rest. -/
theorem Receives.block {block : List α} {next : List α → StreamProgram α β} {count : ℕ}
    (length : block.length = count) (onward : Receives loop final (next block) symbols work) :
    Receives loop final (.readExact count next) (block ++ symbols) (count + work + 1) :=
  length ▸ .read onward

/-- The block the program goes on with is the last one. -/
theorem Receives.last {block : List α} {next : List α → StreamProgram α β} {count : ℕ}
    (length : block.length = count) (ends : next block = final) :
    Receives loop final (.readExact count next) block (count + 1) := by
  subst ends
  have read := Receives.block length (@Receives.here _ _ loop (next block) 0)
  rwa [List.append_nil] at read

/-- Every step of a program that still has to send moves some of the symbols to the queue. -/
theorem Sends.step (sends : Sends loop final program symbols work)
    (taken : program.advance capacity loop incoming outgoing chunk = some moved) :
    (program = final ∧ symbols = []) ∨
      ∃ sent rest left, symbols = sent ++ rest ∧ moved.2 = (incoming, outgoing ++ sent) ∧
        Sends loop final moved.1 rest left ∧ left < work := by
  cases sends with
  | here => exact .inl ⟨rfl, rfl⟩
  | @again result next _ left goesOn onward =>
    right
    simp only [advance, goesOn, Option.map_some, Option.ite_none_right_eq_some,
      Option.some.injEq] at taken
    obtain ⟨_, rfl⟩ := taken
    exact ⟨[], symbols, left, rfl, by rw [List.append_nil], onward, Nat.lt_succ_self _⟩
  | @write block next rest left onward =>
    right
    simp only [advance] at taken
    split at taken
    · next empty =>
      simp only [Option.ite_none_right_eq_some, Option.some.injEq] at taken
      obtain ⟨_, rfl⟩ := taken
      obtain rfl := List.length_eq_zero_iff.mp empty
      exact ⟨[], rest, left, rfl, by rw [List.append_nil], onward, by simp⟩
    · simp only [Option.ite_none_right_eq_some, Option.some.injEq] at taken
      obtain ⟨⟨positive, short, _⟩, rfl⟩ := taken
      refine ⟨block.take chunk, block.drop chunk ++ rest, _, ?_, rfl, .write onward, ?_⟩
      · rw [← List.append_assoc, List.take_append_drop]
      · rw [List.length_drop]
        omega
  | @skip next _ left onward =>
    right
    simp only [advance, if_pos, Option.ite_none_right_eq_some, Option.some.injEq] at taken
    obtain ⟨_, rfl⟩ := taken
    exact ⟨[], symbols, left, rfl, by rw [List.append_nil], onward, Nat.lt_succ_self _⟩

/-- Every step of a program that still has to receive takes some of the symbols from the queue. -/
theorem Receives.step (receives : Receives loop final program (incoming ++ more) work)
    (taken : program.advance capacity loop incoming outgoing chunk = some moved) :
    (program = final ∧ incoming ++ more = []) ∨
      ∃ left, Receives loop final moved.1 (moved.2.1 ++ more) left ∧ left < work ∧
        moved.2.1 <:+ incoming ∧ moved.2.2 = outgoing := by
  generalize whole : incoming ++ more = symbols at receives
  cases receives with
  | here => exact .inl ⟨rfl, rfl⟩
  | @again result next _ left goesOn onward =>
    right
    simp only [advance, goesOn, Option.map_some, Option.ite_none_right_eq_some,
      Option.some.injEq] at taken
    obtain ⟨_, rfl⟩ := taken
    exact ⟨left, whole ▸ onward, Nat.lt_succ_self _, List.suffix_rfl, rfl⟩
  | @skip next _ left onward =>
    right
    simp only [advance, List.length_nil, if_pos, Option.ite_none_right_eq_some,
      Option.some.injEq] at taken
    obtain ⟨_, rfl⟩ := taken
    exact ⟨left, whole ▸ onward, Nat.lt_succ_self _, List.suffix_rfl, rfl⟩
  | @read block next rest left onward =>
    right
    simp only [advance] at taken
    split at taken
    · next empty =>
      simp only [Option.ite_none_right_eq_some, Option.some.injEq] at taken
      obtain ⟨_, rfl⟩ := taken
      obtain rfl := List.length_eq_zero_iff.mp empty
      exact ⟨left, by rwa [whole, List.nil_append], by simp, List.suffix_rfl, rfl⟩
    · simp only [Option.ite_none_right_eq_some, Option.some.injEq] at taken
      obtain ⟨⟨positive, short, there⟩, rfl⟩ := taken
      -- The chunk is the front of the block that was still to be read.
      have front : incoming.take chunk = block.take chunk := by
        rw [← List.take_append_of_le_length there, whole, List.take_append_of_le_length short]
      have back : incoming.drop chunk ++ more = block.drop chunk ++ rest := by
        rw [← List.drop_append_of_le_length there, whole, List.drop_append_of_le_length short]
      have resumed : Receives loop final
          (.readExact (block.drop chunk).length fun later => next (block.take chunk ++ later))
          (block.drop chunk ++ rest) ((block.drop chunk).length + left + 1) :=
        .read (by rwa [List.take_append_drop])
      refine ⟨(block.drop chunk).length + left + 1, ?_, ?_, List.drop_suffix _ _, rfl⟩
      · simpa only [back, front, List.length_drop] using resumed
      · rw [List.length_drop]
        omega

/-- A program on its way to another one has not ended. -/
theorem Sends.ne_done {result : β} (sends : Sends loop final program symbols work)
    (ends : loop result = none) (differs : final ≠ .done result) : program ≠ .done result := by
  rintro rfl
  cases sends with
  | here => exact differs rfl
  | again goesOn _ => exact absurd (goesOn.symm.trans ends) (Option.some_ne_none _)

/-- A program that has to send can move as long as its queue is empty. -/
theorem Sends.enabled (sends : Sends loop final program symbols work) (room : capacity ≠ some 0)
    (incoming : List α) :
    (program = final ∧ symbols = []) ∨
      ∃ chunk, (program.advance capacity loop incoming [] chunk).isSome := by
  cases sends with
  | here => exact .inl ⟨rfl, rfl⟩
  | again goesOn _ => exact .inr ⟨0, by simp [advance, goesOn]⟩
  | @write block _ _ _ _ =>
    right
    cases block with
    | nil => exact ⟨0, rfl⟩
    | cons symbol rest =>
      have one : fits capacity 1 = true := by
        cases capacity with
        | none => rfl
        | some bound =>
          rw [fits, Option.all_some, decide_eq_true_iff]
          exact Nat.pos_of_ne_zero fun zero => room (congrArg some zero)
      exact ⟨1, by simp [advance, one]⟩
  | skip _ => exact .inr ⟨0, rfl⟩

/-- A program that has to receive can move as long as something has come in. -/
theorem Receives.enabled (receives : Receives loop final program symbols work)
    (came : symbols = [] ∨ incoming ≠ []) (outgoing : List α) :
    (program = final ∧ symbols = []) ∨
      ∃ chunk, (program.advance capacity loop incoming outgoing chunk).isSome := by
  cases receives with
  | here => exact .inl ⟨rfl, rfl⟩
  | again goesOn _ => exact .inr ⟨0, by simp [advance, goesOn]⟩
  | skip _ => exact .inr ⟨0, rfl⟩
  | @read block _ _ _ _ =>
    right
    cases block with
    | nil => exact ⟨0, rfl⟩
    | cons symbol rest =>
      have something : 0 < incoming.length := by
        rcases came with nothing | something
        · cases nothing
        · exact List.length_pos_iff.mpr something
      exact ⟨1, by simp [advance, Nat.succ_le_of_lt something]⟩

end Transfers

section Exchange

variable (askLoop : β → Option (StreamProgram α β)) (serveLoop : γ → Option (StreamProgram α γ))
variable (asked : StreamProgram α β) (served : StreamProgram α γ) (request response : List α)

/-- A request and its answer under way, with what the two queues hold and the work left. First the
request travels and nothing comes back; then the answer travels and the request is used up. -/
inductive Underway : StreamProgram α β → StreamProgram α γ → List α → List α → ℕ → Prop
  | asking {asker server waiting answering unsent toServer sending receiving listening speaking}
      (sends : Sends askLoop waiting asker unsent sending)
      (receives : Receives serveLoop answering server (toServer ++ unsent) receiving)
      (listens : Receives askLoop asked waiting response listening)
      (answers : Sends serveLoop served answering response speaking)
      (frame : toServer ++ unsent <:+ request) :
      Underway asker server toServer [] (sending + receiving + listening + speaking)
  | answering {asker server unsent toClient sending receiving}
      (sends : Sends serveLoop served server unsent sending)
      (receives : Receives askLoop asked asker (toClient ++ unsent) receiving)
      (frame : toClient ++ unsent <:+ response) :
      Underway asker server [] toClient (sending + receiving)

variable {askLoop serveLoop asked served request response}
variable {capacity : Option ℕ} {asker : StreamProgram α β} {server : StreamProgram α γ}
variable {toServer toClient : List α} {work chunk : ℕ}

/-- A program that cannot move before something comes in. -/
def Still (loop : β → Option (StreamProgram α β)) (program : StreamProgram α β) : Prop :=
  ∀ capacity outgoing chunk, program.advance capacity loop [] outgoing chunk = none

namespace Underway

variable (underway : Underway askLoop serveLoop asked served request response asker server toServer toClient work)
include underway

/-- A step of the asking party keeps the exchange under way and spends some of the work. -/
theorem ask (still : Still askLoop asked) (answered : response ≠ [])
    {moved : StreamProgram α β × List α × List α}
    (taken : asker.advance capacity askLoop toClient toServer chunk = some moved) :
    ∃ left < work, Underway askLoop serveLoop asked served request response moved.1 server moved.2.2
      moved.2.1 left := by
  cases underway with
  | @asking _ _ _ _ sending receiving listening speaking sends receives listens answers frame =>
    rcases sends.step taken with ⟨rfl, rfl⟩ | ⟨sent, rest, left, rfl, queues, onward, less⟩
    · -- The request is out: what the party does without input belongs to its listening.
      have listens' : Receives askLoop asked asker ([] ++ response) listening := listens
      rcases listens'.step taken with ⟨_, none_⟩ | ⟨left, onward, less, suffix, out⟩
      · exact absurd none_ answered
      · have empty : moved.2.1 = [] := List.suffix_nil.mp suffix
        rw [empty, List.nil_append] at onward
        rw [empty, out]
        exact ⟨sending + receiving + left + speaking, by omega,
          .asking .here receives onward answers frame⟩
    · rw [queues]
      rw [← List.append_assoc] at receives frame
      exact ⟨left + receiving + listening + speaking, by omega,
        .asking onward receives listens answers frame⟩
  | @answering unsent _ sending receiving sends receives frame =>
    rcases receives.step taken with ⟨rfl, none_⟩ | ⟨left, onward, less, suffix, out⟩
    · rw [(List.append_eq_nil_iff.mp none_).1, still] at taken
      exact absurd taken.symm (Option.some_ne_none _)
    · rw [out]
      have shorter : moved.2.1 ++ unsent <:+ toClient ++ unsent := List.suffix_append_self_iff.mpr suffix
      exact ⟨sending + left, by omega, .answering sends onward (shorter.trans frame)⟩

/-- A step of the answering party keeps the exchange under way and spends some of the work. -/
theorem serve (still : Still serveLoop served) (answered : response ≠ [])
    {moved : StreamProgram α γ × List α × List α}
    (taken : server.advance capacity serveLoop toServer toClient chunk = some moved) :
    ∃ left < work, Underway askLoop serveLoop asked served request response asker moved.1 moved.2.1
      moved.2.2 left := by
  cases underway with
  | @asking _ _ unsent _ sending receiving listening speaking sends receives listens answers frame =>
    rcases receives.step taken with ⟨rfl, none_⟩ | ⟨left, onward, less, suffix, out⟩
    · -- The request has arrived: the first step of the answer begins the second phase.
      obtain ⟨rfl, rfl⟩ := List.append_eq_nil_iff.mp none_
      rcases answers.step taken with ⟨_, none_⟩ | ⟨sent, rest, left, rfl, queues, onward, less⟩
      · exact absurd none_ answered
      · rw [queues, List.nil_append]
        exact ⟨left + (sending + listening), by omega,
          .answering onward (sends.receives listens) List.suffix_rfl⟩
    · rw [out]
      have shorter : moved.2.1 ++ unsent <:+ toServer ++ unsent := List.suffix_append_self_iff.mpr suffix
      exact ⟨sending + left + listening + speaking, by omega,
        .asking sends onward listens answers (shorter.trans frame)⟩
  | @answering _ _ sending receiving sends receives frame =>
    rcases sends.step taken with ⟨rfl, rfl⟩ | ⟨sent, rest, left, rfl, queues, onward, less⟩
    · rw [still] at taken
      exact absurd taken.symm (Option.some_ne_none _)
    · rw [queues]
      rw [← List.append_assoc] at receives frame
      exact ⟨left + receiving, by omega, .answering onward receives frame⟩

/-- Until the asking party is done, one of the two can move. -/
theorem enabled (answered : response ≠ []) (room : capacity ≠ some 0) :
    asker = asked ∨ (∃ chunk, (asker.advance capacity askLoop toClient toServer chunk).isSome) ∨
      ∃ chunk, (server.advance capacity serveLoop toServer toClient chunk).isSome := by
  cases underway with
  | asking sends receives listens answers frame =>
    right
    by_cases empty : toServer = []
    · subst empty
      rcases sends.enabled room [] with ⟨rfl, rfl⟩ | moves
      · rcases receives.enabled (.inl rfl) [] with ⟨rfl, _⟩ | moves
        · rcases answers.enabled room [] with ⟨_, none_⟩ | moves
          · exact absurd none_ answered
          · exact .inr moves
        · exact .inr moves
      · exact .inl moves
    · rcases receives.enabled (.inr empty) [] with ⟨_, none_⟩ | moves
      · exact absurd (List.append_eq_nil_iff.mp none_).1 empty
      · exact .inr moves
  | answering sends receives frame =>
    by_cases empty : toClient = []
    · subst empty
      rcases sends.enabled room [] with ⟨_, rfl⟩ | moves
      · rcases receives.enabled (.inl rfl) [] with ⟨rfl, _⟩ | moves
        · exact .inl rfl
        · exact .inr (.inl moves)
      · exact .inr (.inr moves)
    · rcases receives.enabled (.inr empty) [] with ⟨_, none_⟩ | moves
      · exact absurd (List.append_eq_nil_iff.mp none_).1 empty
      · exact .inr (.inl moves)

/-- The answering party has not ended. -/
theorem ne_done {result : γ} (ends : serveLoop result = none) (differs : served ≠ .done result) :
    server ≠ .done result := by
  cases underway with
  | asking sends receives listens answers frame =>
    rintro rfl
    generalize toServer ++ _ = symbols at receives
    cases receives with
    | here => exact answers.ne_done ends differs rfl
    | again goesOn _ => exact absurd (goesOn.symm.trans ends) (Option.some_ne_none _)
  | answering sends receives frame => exact sends.ne_done ends differs

/-- What is under way belongs to the request or to the answer. -/
theorem within : toServer <:+: request ∧ toClient <:+: response := by
  cases underway with
  | asking sends receives listens answers frame =>
    exact ⟨(List.prefix_append _ _).isInfix.trans frame.isInfix, List.nil_infix⟩
  | answering sends receives frame =>
    exact ⟨List.nil_infix, (List.prefix_append _ _).isInfix.trans frame.isInfix⟩

end Underway

/-- Once the asking party has a result, nothing is under way any more and the other one has nothing left
to send. -/
theorem Underway.finished {result expected : β}
    (underway : Underway askLoop serveLoop (.done expected) served request response (.done result) server
      toServer toClient work) (ends : ∀ result, askLoop result = none) (answered : response ≠ []) :
    result = expected ∧ toServer = [] ∧ toClient = [] ∧
      ∃ left ≤ work, Sends serveLoop served server [] left := by
  cases underway with
  | asking sends receives listens answers frame =>
    -- A finished party has not heard the answer.
    cases sends with
    | here =>
      cases listens with
      | here => exact absurd rfl answered
      | again goesOn _ => exact absurd (goesOn.symm.trans (ends _)) (Option.some_ne_none _)
    | again goesOn _ => exact absurd (goesOn.symm.trans (ends _)) (Option.some_ne_none _)
  | @answering _ _ sending receiving sends receives frame =>
    generalize whole : toClient ++ _ = symbols at receives
    cases receives with
    | here =>
      obtain ⟨rfl, rfl⟩ := List.append_eq_nil_iff.mp whole
      exact ⟨rfl, rfl, rfl, sending, Nat.le_add_right _ _, sends⟩
    | again goesOn _ => exact absurd (goesOn.symm.trans (ends _)) (Option.some_ne_none _)

end Exchange

section Listening

/-- What a program makes of the symbols that come in before the stream ends, and the symbols it leaves.
There is no result if they end before the program does, or if it writes. -/
def feed : StreamProgram α β → List α → Option (β × List α)
  | .done result, symbols => some (result, symbols)
  | .writeAll _ _, _ => none
  | .readExact count next, symbols =>
      if count ≤ symbols.length then (next (symbols.take count)).feed (symbols.drop count) else none

variable {loop : β → Option (StreamProgram α β)} {program : StreamProgram α β} {symbols rest : List α}
variable {result : β}

/-- A program is fed a block of the expected length. -/
theorem feed_readExact {block : List α} {next : List α → StreamProgram α β} {count : ℕ}
    (length : block.length = count) :
    feed (.readExact count next) (block ++ rest) = (next block).feed rest := by
  rw [feed, if_pos (by rw [List.length_append]; omega), List.take_left' length, List.drop_left' length]

theorem feed_eq_none {next : List α → StreamProgram α β} {count : ℕ} (short : symbols.length < count) :
    feed (.readExact count next) symbols = none := by
  rw [feed, if_neg (by omega)]

/-- Whatever the chunks it comes in, a program that is fed its symbols receives them. -/
theorem receives_of_feed (fed : program.feed symbols = some (result, rest)) :
    ∃ taken work, symbols = taken ++ rest ∧ Receives loop (.done result) program taken work := by
  induction program generalizing symbols with
  | done ending =>
    cases fed
    exact ⟨[], 0, rfl, .here⟩
  | writeAll block next ih => cases fed
  | readExact count next ih =>
    rw [feed] at fed
    split at fed
    · next enough =>
      obtain ⟨taken, work, split, receives⟩ := ih _ fed
      refine ⟨symbols.take count ++ taken, count + work + 1, ?_,
        .block (List.length_take_of_le enough) receives⟩
      rw [List.append_assoc, ← split, List.take_append_drop]
    · cases fed

end Listening

section Driving

/-- One step of a program and its queues, which have room for everything. -/
def move (loop : β → Option (StreamProgram α β)) (state : StreamProgram α β × List α × List α) (chunk : ℕ) :
    Option (StreamProgram α β × List α × List α) :=
  state.1.advance none loop state.2.1 state.2.2 chunk

variable {loop : β → Option (StreamProgram α β)} {program final : StreamProgram α β}
variable {symbols : List α} {work : ℕ}

/-- A block is written in one chunk, and the program goes on. -/
theorem reaches_writeAll (block : List α) (next : StreamProgram α β) (incoming outgoing : List α) :
    Runs.Reaches (move loop) (.writeAll block next, incoming, outgoing)
      (next, incoming, outgoing ++ block) := by
  have goesOn : move loop (.writeAll [] next, incoming, outgoing ++ block) 0 =
      some (next, incoming, outgoing ++ block) := rfl
  cases block with
  | nil =>
    rw [List.append_nil] at goesOn ⊢
    exact .head goesOn (.refl _)
  | cons symbol rest =>
    have written : move loop (.writeAll (symbol :: rest) next, incoming, outgoing) (symbol :: rest).length =
        some (.writeAll [] next, incoming, outgoing ++ symbol :: rest) := by
      simp [move, advance, fits]
    exact .head written (.head goesOn (.refl _))

/-- A block is read in one chunk, and the program goes on. -/
theorem reaches_readExact (block : List α) (next : List α → StreamProgram α β) (more outgoing : List α) :
    Runs.Reaches (move loop) (.readExact block.length next, block ++ more, outgoing)
      (next block, more, outgoing) := by
  cases block with
  | nil =>
    have goesOn : move loop (.readExact 0 next, more, outgoing) 0 = some (next [], more, outgoing) := rfl
    exact .head goesOn (.refl _)
  | cons symbol rest =>
    have read : move loop (.readExact (symbol :: rest).length next, symbol :: rest ++ more, outgoing)
        (symbol :: rest).length =
          some (.readExact 0 fun later => next (symbol :: rest ++ later), more, outgoing) := by
      simp [move, advance]
    have goesOn : move loop (.readExact 0 fun later => next (symbol :: rest ++ later), more, outgoing) 0 =
        some (next (symbol :: rest), more, outgoing) := by
      simp [move, advance]
    exact .head read (.head goesOn (.refl _))

/-- A program that sends can be driven to where it has sent everything. -/
theorem Sends.drive (sends : Sends loop final program symbols work) (incoming outgoing : List α) :
    Runs.Reaches (move loop) (program, incoming, outgoing) (final, incoming, outgoing ++ symbols) := by
  induction sends generalizing outgoing with
  | here =>
    rw [List.append_nil]
    exact .refl _
  | @again result next _ _ goesOn _ ih =>
    have again : move loop (.done result, incoming, outgoing) 0 = some (next, incoming, outgoing) := by
      simp [move, advance, goesOn]
    exact .head again (ih outgoing)
  | @write block next _ _ _ ih =>
    rw [← List.append_assoc]
    exact (reaches_writeAll block next incoming outgoing).trans (ih (outgoing ++ block))
  | @skip next _ _ _ ih => exact (reaches_readExact [] next incoming outgoing).trans (ih outgoing)

/-- A program that receives can be driven to where it has received everything. -/
theorem Receives.drive (receives : Receives loop final program symbols work) (more outgoing : List α) :
    Runs.Reaches (move loop) (program, symbols ++ more, outgoing) (final, more, outgoing) := by
  induction receives with
  | here => exact .refl _
  | @again result next symbols _ goesOn _ ih =>
    have again : move loop (.done result, symbols ++ more, outgoing) 0 =
        some (next, symbols ++ more, outgoing) := by
      simp [move, advance, goesOn]
    exact .head again ih
  | @skip next symbols _ _ ih =>
    have skipped := @reaches_writeAll _ _ loop [] next (symbols ++ more) outgoing
    rw [List.append_nil] at skipped
    exact skipped.trans ih
  | @read block next symbols _ _ ih =>
    rw [List.append_assoc]
    exact (reaches_readExact block next (symbols ++ more) outgoing).trans ih

end Driving

end StreamProgram
