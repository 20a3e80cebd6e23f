import Rdmas.Model.RemoteWord
import Rdmas.Soundness.RdmaTransport
import Rdmas.Soundness.RuntimeWaiters

/-! # What the answer of a compare-and-swap says

Both paths answer with the status of a completion, and the status does not depend on the comparison. A call
that gets its own completion, always by the runtime and by the transport when it is at the head of the queue,
is therefore told that it swapped, and that is right only when its request found the word it expected. From
a value that nobody swaps in, the word itself is taken at most once.
-/

namespace Rdmas.Soundness

open Rdmas.Model Runs Function

variable {κ ι : Type}

section Clients

/-- A swap has returned `Ok(true)` and its request has completed, or an error and none was posted. -/
def ToldOfOwn (result : Except RdmaError Bool) (request : RequestState) : Prop :=
  (result = .ok true ∧ request = .completed) ∨ ((∃ error, result = .error error) ∧ request = .absent)

/-- A transport all of whose swaps that have returned were told of their own completion. -/
structure SwapsSound (state : TransportState ι) : Prop where
  queue : QueueSound (fun _ => casCompletion) state
  told : ∀ call result, (state.calls call).casReply = some result → ToldOfOwn result (state.requests call)

/-- No request is taken back, and only the one that a step completes becomes completed. -/
def Advances (completes : Option ι) (before after : ι → RequestState) : Prop :=
  ∀ call, (after call = .absent → before call = .absent) ∧
    (after call = .completed → before call = .completed ∨ completes = some call)

private theorem Advances.refl {completes : Option ι} {requests : ι → RequestState} :
    Advances completes requests requests :=
  fun _ => ⟨id, .inl⟩

variable [DecidableEq ι]

private theorem Advances.update {completes : Option ι} {before : ι → RequestState} {call : ι}
    {request : RequestState} (posted : request ≠ .absent)
    (completed : request = .completed → completes = some call) :
    Advances completes before (update before call request) := by
  intro other
  rw [update_apply]
  split
  · next same => exact ⟨fun absent => absurd absent posted, fun done => .inr (same ▸ completed done)⟩
  · exact ⟨id, .inl⟩

section Transport

variable {state next : TransportState ι} {label : TransportLabel ι}

/-- One call moves on and the requests of the others stay. -/
private theorem SwapsSound.advance (sound : SwapsSound state)
    (queue : QueueSound (fun _ => casCompletion) next) {call : ι} {pc : TransportPc}
    (calls : next.calls = update state.calls call pc)
    (requests : ∀ other, other ≠ call → next.requests other = state.requests other)
    (told : ∀ result, pc.casReply = some result → ToldOfOwn result (next.requests call)) :
    SwapsSound next := by
  refine ⟨queue, fun other result returned => ?_⟩
  rw [calls, update_apply] at returned
  split at returned
  · next same => exact same ▸ told result returned
  · next differs =>
    rw [requests other differs]
    exact sound.told other result returned

/-- A transport whose polls find their own completion tells every swap of its own. -/
private theorem SwapsSound.step (sound : SwapsSound state)
    (own : ∀ call failure, label = .poll call failure → FindsOwn state call failure)
    (taken : state.step (fun _ => .cas) (fun _ => casCompletion) label = some next) :
    SwapsSound next ∧ Advances (ClientLabel.transport label).completes state.requests next.requests := by
  have queue := sound.queue.step taken
  cases label with
  | issue call =>
    simp only [TransportState.step] at taken
    split at taken
    · cases taken
      refine ⟨sound.advance queue rfl (fun _ _ => rfl) fun _ told => ?_, .refl⟩
      cases told
    · cases taken
  | post call refusal =>
    simp only [TransportState.step] at taken
    split at taken
    · next wrId at_ =>
      cases refusal with
      | some error =>
        cases taken
        have fresh := sound.queue.absent call (by rw [at_]; trivial)
        refine ⟨sound.advance queue rfl (fun _ _ => rfl) fun _ told => .inr ⟨⟨error, ?_⟩, fresh⟩, .refl⟩
        exact (Option.some.inj told).symm
      | none =>
        cases taken
        refine ⟨sound.advance queue rfl (fun _ differs => update_of_ne differs _ _)
          fun _ told => ?_, .update (by simp) (by simp)⟩
        cases told
    · cases taken
  | complete call =>
    simp only [TransportState.step] at taken
    split at taken
    · next wrId at_ =>
      cases taken
      refine ⟨⟨queue, fun other result returned => ?_⟩, .update (by simp) fun _ => rfl⟩
      have told := sound.told other result returned
      -- A call that has returned has no request under way.
      have differs : other ≠ call := by
        rintro rfl
        rw [at_] at told
        rcases told with ⟨_, completed⟩ | ⟨_, absent⟩
        · cases completed
        · cases absent
      simp only [TransportState.setRequest, update_of_ne differs]
      exact told
    · cases taken
  | poll call failure =>
    obtain ⟨wrId, at_⟩ := posted_of_poll taken
    have finds := own call failure rfl
    obtain ⟨wc, head⟩ := finds.head
    obtain ⟨completed, success⟩ := sound.queue.entries call wc (List.mem_of_mem_head? head)
    have polled := (polledSuccess_head_iff state).mpr ⟨call, wc, head, success⟩
    obtain rfl := finds.1
    simp only [TransportState.step, at_, RdmaTransport.finish, RdmaTransport.finishCas, polled,
      Option.some.injEq] at taken
    subst taken
    refine ⟨sound.advance queue rfl (fun _ _ => rfl) fun _ told => .inl ⟨?_, completed⟩, .refl⟩
    exact (Option.some.inj told).symm
  | pollerPoll =>
    cases taken
    exact ⟨⟨queue, sound.told⟩, .refl⟩

end Transport

private theorem runtime_advances {ops : ι → RuntimeOp} {outcome : ι → WorkCompletion}
    {state next : RuntimeState ι} {label : RuntimeLabel ι}
    (taken : state.step ops outcome label = some next) :
    Advances (ClientLabel.runtime label).completes state.requests next.requests := by
  cases label with
  | issue | register | cleanup | poll | dispatch | receive =>
    simp only [RuntimeState.step] at taken
    repeat' split at taken
    all_goals cases taken
    all_goals exact .refl
  | post =>
    simp only [RuntimeState.step] at taken
    repeat' split at taken
    all_goals cases taken
    · exact .refl
    · exact .update (by simp) (by simp)
  | complete =>
    simp only [RuntimeState.step] at taken
    split at taken
    all_goals cases taken
    exact .update (by simp) fun _ => rfl

/-- A client all of whose swaps that have returned were told of their own completion. -/
def ClientSound : CasClient ι → Prop
  | .transport state => SwapsSound state
  | .runtime state => ∃ phases, RunsInPhases (fun _ => .cas) (fun _ => casCompletion) phases state

/-- The polls of a transport find the call's own completion at the head of the queue, and a runtime does
not run out of ids. -/
def PollsOwn : CasClient ι → ClientLabel ι → Prop
  | .transport state, .transport (.poll call failure) => FindsOwn state call failure
  | .runtime state, .runtime (.issue _) => state.issued + 1 < 2 ^ 64
  | _, _ => True

instance decidablePollsOwn :
    (client : CasClient ι) → (label : ClientLabel ι) → Decidable (PollsOwn client label)
  | .transport state, .transport (.poll call failure) =>
      inferInstanceAs (Decidable (FindsOwn state call failure))
  | .runtime state, .runtime (.issue _) => Nat.decLt (state.issued + 1) (2 ^ 64)
  | .transport _, .transport (.issue _) | .transport _, .transport (.post _ _)
  | .transport _, .transport (.complete _) | .transport _, .transport .pollerPoll
  | .runtime _, .runtime (.register _) | .runtime _, .runtime (.post _ _) | .runtime _, .runtime (.cleanup _)
  | .runtime _, .runtime (.complete _) | .runtime _, .runtime .poll | .runtime _, .runtime .dispatch
  | .runtime _, .runtime (.receive _) | .transport _, .runtime _ | .runtime _, .transport _ => .isTrue trivial

variable {client next : CasClient ι} {label : ClientLabel ι}

private theorem ClientSound.step (sound : ClientSound client) (own : PollsOwn client label)
    (taken : client.step label = some next) :
    ClientSound next ∧ Advances label.completes client.requests next.requests := by
  cases client with
  | transport state =>
    cases label with
    | transport label =>
      obtain ⟨after, moved, rfl⟩ := Option.map_eq_some_iff.mp taken
      refine SwapsSound.step sound (fun call failure polls => ?_) moved
      subst polls
      exact own
    | runtime => cases taken
  | runtime state =>
    cases label with
    | transport => cases taken
    | runtime label =>
      obtain ⟨after, moved, rfl⟩ := Option.map_eq_some_iff.mp taken
      refine ⟨runsInPhases_step sound (fun call issues => ?_) moved, runtime_advances moved⟩
      subst issues
      exact own

omit [DecidableEq ι] in
private theorem ClientSound.toldOfOwn (sound : ClientSound client) {call : ι}
    {result : Except RdmaError Bool} (told : client.reply call = some result) :
    ToldOfOwn result (client.requests call) := by
  cases client with
  | transport state => exact SwapsSound.told sound call result told
  | runtime state =>
    obtain ⟨phases, represents⟩ := sound
    simp only [CasClient.reply, represents.pc_eq] at told
    simp only [CasClient.requests, represents.request_eq]
    cases at_ : phases call with
    | finished =>
      rw [at_] at told
      exact .inl ⟨(Option.some.inj told).symm, rfl⟩
    | failed _ error =>
      rw [at_] at told
      exact .inr ⟨⟨error, (Option.some.inj told).symm⟩, rfl⟩
    | idle | issued | registered | refused | flying | travelling | delivered =>
      rw [at_] at told
      cases told

end Clients

variable {compare swap : κ × ι → BitVec 64} {word expected : BitVec 64} {paths : κ → CasPath}
variable {system next final : CasSystem κ ι} {label : CasLabel κ ι} {labels : List (CasLabel κ ι)}

/-- Of a swap that has returned: `Ok(true)` exactly when the word matched and was replaced, `Ok(false)`
exactly when it differed and was left alone. -/
def Truthful (compare swap : κ × ι → BitVec 64) (system : CasSystem κ ι) (at_ : κ × ι) : Prop :=
  ∀ result, system.reply at_ = some result →
    (result = .ok true ↔ system.executed at_ = some (compare at_, swap at_)) ∧
    (result = .ok false ↔ ∃ word, word ≠ compare at_ ∧ system.executed at_ = some (word, word))

/-- Every client that moves polls its own completions. -/
def OwnCompletions (system : CasSystem κ ι) : CasLabel κ ι → Prop
  | .client client label => PollsOwn (system.clients client) label
  | .execute _ _ => True

/-- A request that is executed finds the word it expects. -/
def FindsExpected (compare : κ × ι → BitVec 64) (system : CasSystem κ ι) : CasLabel κ ι → Prop
  | .client _ _ => True
  | .execute client call => system.word = compare (client, call)

instance decidableOwnCompletions [DecidableEq ι] (system : CasSystem κ ι) :
    (label : CasLabel κ ι) → Decidable (OwnCompletions system label)
  | .client client label => decidablePollsOwn (system.clients client) label
  | .execute _ _ => .isTrue trivial

instance decidableFindsExpected (compare : κ × ι → BitVec 64) (system : CasSystem κ ι) :
    (label : CasLabel κ ι) → Decidable (FindsExpected compare system label)
  | .client _ _ => .isTrue trivial
  | .execute client call => decEq system.word (compare (client, call))

section System

/-- Every swap is told of its own completion; what has completed was executed, and nothing that was not
posted; and what was executed compared and swapped. -/
structure CasSound (compare swap : κ × ι → BitVec 64) (system : CasSystem κ ι) : Prop where
  clients : ∀ client, ClientSound (system.clients client)
  absent : ∀ client call, (system.clients client).requests call = .absent →
    system.executed (client, call) = none
  completed : ∀ client call, (system.clients client).requests call = .completed →
    (system.executed (client, call)).isSome = true
  swapped : ∀ at_ before after, system.executed at_ = some (before, after) →
    after = if before = compare at_ then swap at_ else before

private theorem casSound_initial : CasSound compare swap (.initial word paths : CasSystem κ ι) where
  clients client := by
    simp only [CasSystem.initial]
    split
    · exact ⟨queueSound_initial, fun _ _ returned => by cases returned⟩
    · exact ⟨_, runsInPhases_initial⟩
  absent _ _ _ := rfl
  completed client _ completed := by
    simp only [CasSystem.initial] at completed
    split at completed
    all_goals cases completed
  swapped _ _ _ executed := by cases executed

/-- A swap that was told of its own completion was told the truth exactly if its request found the word it
expected. -/
theorem CasSound.truthful_iff (sound : CasSound compare swap system) (at_ : κ × ι) :
    Truthful compare swap system at_ ↔ ∀ result before after,
      system.reply at_ = some result → system.executed at_ = some (before, after) →
        before = compare at_ := by
  constructor
  · intro truthful result before after told executed
    rcases (sound.clients at_.1).toldOfOwn told with ⟨rfl, _⟩ | ⟨_, request⟩
    · have swapped := (truthful _ told).1.mp rfl
      exact congrArg Prod.fst (Option.some.inj (executed.symm.trans swapped))
    · cases executed.symm.trans (sound.absent at_.1 at_.2 request)
  · intro found result told
    rcases (sound.clients at_.1).toldOfOwn told with ⟨rfl, request⟩ | ⟨⟨error, rfl⟩, request⟩
    · obtain ⟨⟨before, after⟩, executed⟩ :=
        Option.isSome_iff_exists.mp (sound.completed at_.1 at_.2 request)
      obtain rfl := found _ before after told executed
      have replaced := sound.swapped at_ _ after executed
      rw [if_pos rfl] at replaced
      refine ⟨iff_of_true rfl (replaced ▸ executed), iff_of_false (by simp) ?_⟩
      rintro ⟨word, other, same⟩
      exact other (congrArg Prod.fst (Option.some.inj (same.symm.trans executed)))
    · have none : system.executed at_ = none := sound.absent at_.1 at_.2 request
      simp [none]

variable [DecidableEq κ] [DecidableEq ι]

/-- What a step of the system does. -/
inductive CasEffect (compare swap : κ × ι → BitVec 64) (system : CasSystem κ ι) :
    CasLabel κ ι → CasSystem κ ι → Prop where
  | client (client : κ) (label : ClientLabel ι) (after : CasClient ι)
      (before : ∀ call, label.completes = some call → (system.executed (client, call)).isSome = true)
      (taken : (system.clients client).step label = some after) :
      CasEffect compare swap system (.client client label)
        { system with clients := update system.clients client after }
  | execute (client : κ) (call : ι) (wrId after : BitVec 64)
      (flying : (system.clients client).requests call = .inFlight wrId)
      (fresh : system.executed (client, call) = none)
      (swaps : after = if system.word = compare (client, call) then swap (client, call) else system.word) :
      CasEffect compare swap system (.execute client call)
        { system with
          word := after
          executed := update system.executed (client, call) (some (system.word, after)) }

private theorem casEffect_of_step (taken : system.step compare swap label = some next) :
    CasEffect compare swap system label next := by
  cases label with
  | client client label =>
    simp only [CasSystem.step] at taken
    split at taken
    · next before =>
      obtain ⟨after, moved, rfl⟩ := Option.map_eq_some_iff.mp taken
      exact .client client label after (fun call completes => by simpa [completes] using before) moved
    · cases taken
  | execute client call =>
    simp only [CasSystem.step] at taken
    split at taken
    · next wrId flying fresh =>
      cases taken
      exact .execute client call wrId _ flying fresh rfl
    · cases taken

theorem CasSound.step (sound : CasSound compare swap system) (own : OwnCompletions system label)
    (taken : system.step compare swap label = some next) : CasSound compare swap next := by
  cases casEffect_of_step taken with
  | client client label after before moved =>
    obtain ⟨told, advances⟩ := (sound.clients client).step own moved
    refine ⟨fun other => ?_, fun other call => ?_, fun other call => ?_, sound.swapped⟩
    all_goals simp only [update_apply]
    all_goals split
    · exact told
    · exact sound.clients other
    · next same => exact fun absent => same ▸ sound.absent client call ((advances call).1 absent)
    · exact sound.absent other call
    · next same =>
      intro done
      rcases (advances call).2 done with completed | now
      · exact same ▸ sound.completed client call completed
      · exact same ▸ before call now
    · exact sound.completed other call
  | execute client call wrId after flying fresh swaps =>
    refine ⟨sound.clients, fun other request absent => ?_, fun other request completed => ?_,
      fun at_ before left executed => ?_⟩
    · have differs : (other, request) ≠ (client, call) := by
        rintro ⟨rfl, rfl⟩
        cases flying.symm.trans absent
      exact (update_of_ne differs _ _).trans (sound.absent other request absent)
    · simp only [update_apply]
      split
      · rfl
      · exact sound.completed other request completed
    · simp only [update_apply] at executed
      split at executed
      · next same =>
        cases same
        cases executed
        exact swaps
      · exact sound.swapped at_ before left executed

end System

section Winners

/-- The request was executed and took the word from the value. -/
def Took (compare : κ × ι → BitVec 64) (expected : BitVec 64) (system : CasSystem κ ι) (at_ : κ × ι) : Prop :=
  compare at_ = expected ∧ ∃ after, system.executed at_ = some (expected, after)

/-- Whoever took the word from a value took it for good. -/
def TakenOnce (compare : κ × ι → BitVec 64) (expected : BitVec 64) (system : CasSystem κ ι) : Prop :=
  ∀ at_, Took compare expected system at_ →
    system.word ≠ expected ∧ ∀ other, Took compare expected system other → other = at_

/-- The client was told that its swap from the value succeeded. -/
def Won (compare : κ × ι → BitVec 64) (expected : BitVec 64) (system : CasSystem κ ι) (at_ : κ × ι) : Prop :=
  compare at_ = expected ∧ system.reply at_ = some (.ok true)

variable [DecidableEq κ] [DecidableEq ι]

/-- A request that was executed is the one just executed, which found the word, or an earlier one. -/
private theorem took_of_execute {client : κ} {call : ι} {after : BitVec 64} {at_ : κ × ι}
    (took : Took compare expected { system with
      word := after
      executed := update system.executed (client, call) (some (system.word, after)) } at_) :
    (at_ = (client, call) ∧ system.word = expected ∧ compare at_ = expected) ∨
      Took compare expected system at_ := by
  obtain ⟨compares, left, executed⟩ := took
  simp only [update_apply] at executed
  split at executed
  · next same => exact .inl ⟨same, congrArg Prod.fst (Option.some.inj executed), compares⟩
  · exact .inr ⟨compares, left, executed⟩

theorem TakenOnce.step (fresh : ∀ at_, swap at_ ≠ expected) (once : TakenOnce compare expected system)
    (taken : system.step compare swap label = some next) : TakenOnce compare expected next := by
  cases casEffect_of_step taken with
  | client => exact once
  | execute client call wrId after flying unexecuted swaps =>
    intro at_ took
    rcases took_of_execute took with ⟨rfl, found, compares⟩ | before
    · -- The request that takes the word is the first to do so.
      rw [if_pos (found.trans compares.symm)] at swaps
      refine ⟨swaps ▸ fresh _, fun other tookToo => ?_⟩
      rcases took_of_execute tookToo with ⟨same, _⟩ | earlier
      · exact same
      · exact absurd found (once other earlier).1
    · obtain ⟨gone, only⟩ := once at_ before
      refine ⟨?_, fun other tookToo => ?_⟩
      · dsimp only
        rw [swaps]
        split
        · exact fresh _
        · exact gone
      · rcases took_of_execute tookToo with ⟨_, found, _⟩ | earlier
        · exact absurd found gone
        · exact only other earlier

/-- Every request that was executed found the word it expected. -/
def Matched (compare : κ × ι → BitVec 64) (system : CasSystem κ ι) : Prop :=
  ∀ at_ before after, system.executed at_ = some (before, after) → before = compare at_

theorem Matched.step (matched : Matched compare system) (equal : FindsExpected compare system label)
    (taken : system.step compare swap label = some next) : Matched compare next := by
  cases casEffect_of_step taken with
  | client => exact matched
  | execute client call wrId after flying fresh swaps =>
    intro at_ before left executed
    simp only [update_apply] at executed
    split at executed
    · next same =>
      cases same
      cases executed
      exact equal
    · exact matched at_ before left executed

end Winners

variable [DecidableEq κ] [DecidableEq ι]

/-- Any number of clients swap one word by either path, in any interleaving. If each poll of a transport
finds the call's own completion at the head of the queue and each request finds the word it expects, every
answer is truthful; and of the clients that swap from a value that no swap writes at most one is told it
succeeded. -/
theorem cas_truthful_of_own_completions (compare swap : κ × ι → BitVec 64) (word : BitVec 64)
    (paths : κ → CasPath) (labels : List (CasLabel κ ι)) (final : CasSystem κ ι)
    (reached : run (CasSystem.step compare swap) (.initial word paths) labels = some final)
    (own : Throughout (CasSystem.step compare swap) OwnCompletions (.initial word paths) labels)
    (equal : Throughout (CasSystem.step compare swap) (FindsExpected compare) (.initial word paths) labels) :
    (∀ at_, Truthful compare swap final at_) ∧
      ∀ expected, (∀ at_, swap at_ ≠ expected) →
        ∀ left right, Won compare expected final left → Won compare expected final right → left = right := by
  have sound : CasSound compare swap final := own.invariant CasSound.step casSound_initial reached
  have matched : Matched compare final :=
    equal.invariant Matched.step (fun _ _ _ executed => by cases executed) reached
  have truthful : ∀ at_, Truthful compare swap final at_ := fun at_ =>
    (sound.truthful_iff at_).mpr fun _ before after _ => matched at_ before after
  refine ⟨truthful, fun expected fresh left right leftWon rightWon => ?_⟩
  have once : TakenOnce compare expected final :=
    run_invariant (fun once taken => TakenOnce.step fresh once taken)
      (fun _ took => took.2.elim fun _ executed => by cases executed) reached
  have took : ∀ at_, Won compare expected final at_ → Took compare expected final at_ := fun at_ won =>
    ⟨won.1, swap at_, won.1 ▸ ((truthful at_ _ won.2).1.mp rfl)⟩
  exact (once right (took right rightWon)).2 left (took left leftWon)

/-- A client of the transport swaps 0 for 1 and one of the runtime 1 for 2; both find what they expect. -/
theorem swaps_in_turn_are_told :
    let compare : Bool × Unit → BitVec 64 := fun at_ => if at_.1 then 1 else 0
    let swap : Bool × Unit → BitVec 64 := fun at_ => if at_.1 then 2 else 1
    let paths : Bool → CasPath := fun client => if client then .runtime else .transport
    let labels : List (CasLabel Bool Unit) :=
      [.client false (.transport (.issue ())), .client false (.transport (.post () none)),
        .client true (.runtime (.issue ())), .execute false (), .client false (.transport (.complete ())),
        .client true (.runtime (.register ())), .client true (.runtime (.post () none)), .execute true (),
        .client false (.transport (.poll () none)), .client true (.runtime (.complete ())),
        .client true (.runtime .poll), .client true (.runtime .dispatch),
        .client true (.runtime (.receive ()))]
    ∃ final, run (CasSystem.step compare swap) (.initial 0 paths) labels = some final ∧ final.word = 2 ∧
      final.reply (false, ()) = some (.ok true) ∧ final.reply (true, ()) = some (.ok true) ∧
      ∀ at_, Truthful compare swap final at_ := by
  intro compare swap paths labels
  refine ⟨_, rfl, rfl, rfl, rfl, (cas_truthful_of_own_completions compare swap 0 paths labels _ rfl ?_ ?_).1⟩
  all_goals decide +kernel

/-- Two clients swap from 0, both by the runtime or both by the transport, each with its own completion at
the head of the queue: the second finds 1, leaves it alone and is told that it swapped. And a client of the
transport whose poll comes before its completion is told that it did not swap, while it did. -/
theorem two_clients_told_they_swapped :
    let step := CasSystem.step (fun _ => 0) (fun at_ : Bool × Unit => if at_.1 then 2 else 1)
    let byRuntime (client : Bool) : List (CasLabel Bool Unit) :=
      [.client client (.runtime (.issue ())), .client client (.runtime (.register ())),
        .client client (.runtime (.post () none)), .execute client (),
        .client client (.runtime (.complete ())), .client client (.runtime .poll),
        .client client (.runtime .dispatch), .client client (.runtime (.receive ()))]
    let byTransport (client : Bool) : List (CasLabel Bool Unit) :=
      [.client client (.transport (.issue ())), .client client (.transport (.post () none)),
        .execute client (), .client client (.transport (.complete ())),
        .client client (.transport (.poll () none))]
    let told (final : CasSystem Bool Unit) :=
      (final.reply (false, ()), final.reply (true, ()), final.executed (true, ()))
    (run step (.initial 0 fun _ => .runtime) (byRuntime false ++ byRuntime true)).map told =
      some (some (.ok true), some (.ok true), some (1, 1)) ∧
    (run step (.initial 0 fun _ => .transport) (byTransport false ++ byTransport true)).map told =
      some (some (.ok true), some (.ok true), some (1, 1)) ∧
    (run step (.initial 0 fun _ => .transport) [.client true (.transport (.issue ())),
        .client true (.transport (.post () none)), .client true (.transport (.poll () none)),
        .execute true ()]).map told =
      some (none, some (.ok false), some (0, 2)) := by
  refine ⟨?_, ?_, ?_⟩ <;> decide +kernel

end Rdmas.Soundness
