import DoomsdayModules.Core.Schedules
import DoomsdayModules.Telegram.ChatLog
import DoomsdayModules.Telegram.Relay

/-!
# From the service to the chats

The incoming thread names the number behind the last update it handled in its
next request, so the service lets go of handled updates only.  In one session
every update is handled once and in order, and a daemon that is started again
repeats at most the updates that no request has acknowledged.  The thread ends
at the first update it does not get past, and every later session ends there.
-/

namespace DoomsdayModules.Telegram.RelayIncoming

open DoomsdayModules.KernelText DoomsdayModules.Redelivery DoomsdayModules.Telegram.Devices
open DoomsdayModules.Telegram.System DoomsdayModules.Telegram.Daemon
open DoomsdayModules.Telegram.ChatLog DoomsdayModules.Telegram.Incoming
open DoomsdayModules.Telegram.BusLines DoomsdayModules.Telegram.Relay

/-! ## Lines from the bus in the logs -/

/-- The pieces of a log that came over the bus. -/
def incomingPieces (kernel : System.State) (chat : ℕ) : List Text :=
  (kernel.history.pieces chat).filterMap fun piece =>
    if piece.ticket = none then some piece.stored else none

/-- The line a command adds to a chat. -/
def lineFor (chat : ℕ) : BusCommand → Option Text
  | .incoming chatIdx sender message =>
      if chatIdx = chat then some (senderLine sender message) else none
  | .set _ _ => none

/-- The logs hold the lines of the commands in order, each as far as there was
room for it, and whole where there is still room. -/
structure Logged (kernel : System.State) (commands : List BusCommand) : Prop where
  log : LogInvariant kernel
  stored : LogOfPieces kernel
  pieces : ∀ chat, List.Forall₂ (· <+: ·) (incomingPieces kernel chat)
    (commands.filterMap (lineFor chat))
  whole : ∀ chat, (kernel.chats chat).bufLen < msgBuffSize - 1 →
    incomingPieces kernel chat = commands.filterMap (lineFor chat)

/-- Only commands from the bus add such pieces. -/
theorem incomingPieces_step {kernel : System.State} {op : System.Op}
    (hop : ∀ ubuf readable, op ≠ .busWrite ubuf readable) (chat : ℕ) :
    incomingPieces (System.step kernel op) chat = incomingPieces kernel chat := by
  cases op with
  | busWrite ubuf readable => exact absurd rfl (hop ubuf readable)
  | chatWrite process other ubuf readable =>
      simp only [System.step]
      split
      · simp only [incomingPieces, stepChatWrite]
        by_cases hsame : chat = other
        · subst hsame
          rw [assign_self, List.filterMap_append]
          exact List.append_nil _
        · rw [assign_of_ne _ hsame]
      · rfl
  | enqueue process =>
      simp only [System.step]
      split <;> rfl
  | chatReadCall file count =>
      simp only [System.step]
      split <;> rfl
  | chatReadLock file nonblock writable =>
      simp only [System.step]
      split <;> rfl
  | chatReadWake file interrupted =>
      simp only [System.step]
      repeat' split
      all_goals rfl
  | busReadCall process count =>
      simp only [System.step]
      split <;> rfl
  | busReadLock process nonblock writable =>
      simp only [System.step, stepBusReadPass]
      repeat' split
      all_goals rfl
  | busReadWake process interrupted =>
      simp only [System.step]
      repeat' split
      all_goals rfl

theorem Logged.step {kernel : System.State} {commands : List BusCommand} {op : System.Op}
    (hlogged : Logged kernel commands) (hop : ∀ ubuf readable, op ≠ .busWrite ubuf readable) :
    Logged (System.step kernel op) commands := by
  obtain ⟨hlog, hgrow⟩ := logInvariant_step kernel op hlogged.log
  refine ⟨hlog, logOfPieces_step kernel op hlogged.stored, fun chat => ?_, fun chat hroom => ?_⟩
  · rw [incomingPieces_step hop]
    exact hlogged.pieces chat
  · have hlonger := (hgrow chat).length_le
    rw [ChatDev.length_log, ChatDev.length_log] at hlonger
    rw [incomingPieces_step hop]
    exact hlogged.whole chat (hlonger.trans_lt hroom)

theorem stepBusWrite_eq {ubuf : Text} {readable : Bool} {command : BusCommand}
    (hcommand : busWriteCommand ubuf readable = .ok command) (kernel : System.State) :
    stepBusWrite kernel command = System.step kernel (.busWrite ubuf readable) := by
  simp only [System.step, hcommand]

theorem incomingPieces_incoming (kernel : System.State) (chat : ℕ) (sender message : Text)
    (other : ℕ) :
    incomingPieces (stepBusWrite kernel (.incoming chat sender message)) other =
      incomingPieces kernel other ++ if chat = other then
        [scnprintf (kernel.chats chat).room (senderLine sender message)] else [] := by
  simp only [incomingPieces, stepBusWrite, commandPieces]
  by_cases hsame : other = chat
  · subst hsame
    rw [assign_self, List.filterMap_append, if_pos rfl]
    rfl
  · rw [assign_of_ne _ hsame, if_neg (Ne.symm hsame), List.append_nil]

theorem lines_append_set (commands : List BusCommand) (chatIdx : ℕ) (id : Text) (chat : ℕ) :
    (commands ++ [BusCommand.set chatIdx id]).filterMap (lineFor chat) =
      commands.filterMap (lineFor chat) := by
  rw [List.filterMap_append]
  exact List.append_nil _

/-- A command that the kernel took from a line adds its own line. -/
theorem Logged.busWrite {kernel : System.State} {commands : List BusCommand} {ubuf : Text}
    {readable : Bool} {command : BusCommand} (hlogged : Logged kernel commands)
    (hcommand : busWriteCommand ubuf readable = .ok command) :
    Logged (stepBusWrite kernel command) (commands ++ [command]) := by
  have hstep := logInvariant_step kernel (.busWrite ubuf readable) hlogged.log
  rw [← stepBusWrite_eq hcommand] at hstep
  obtain ⟨hlog, hgrow⟩ := hstep
  have hshorter : ∀ chat, (kernel.chats chat).bufLen ≤
      ((stepBusWrite kernel command).chats chat).bufLen := fun chat => by
    have hlonger := (hgrow chat).length_le
    rwa [ChatDev.length_log, ChatDev.length_log] at hlonger
  cases command with
  | set chatIdx id =>
      refine ⟨hlog, hlogged.stored.busWrite _, fun chat => ?_, fun chat hroom => ?_⟩
      · rw [lines_append_set]
        exact hlogged.pieces chat
      · rw [lines_append_set]
        exact hlogged.whole chat ((hshorter chat).trans_lt hroom)
  | incoming chatIdx sender message =>
      have hlines : ∀ chat, (commands ++ [BusCommand.incoming chatIdx sender message]).filterMap
          (lineFor chat) = commands.filterMap (lineFor chat) ++
            if chatIdx = chat then [senderLine sender message] else [] := fun chat => by
        rw [List.filterMap_append]
        by_cases hchat : chatIdx = chat <;> simp [lineFor, hchat]
      have hstored := ChatDev.scnprintf_room (senderLine sender message)
        (hlogged.log.bufLen_lt chatIdx)
      refine ⟨hlog, hlogged.stored.busWrite _, fun chat => ?_, fun chat hroom => ?_⟩
      · rw [incomingPieces_incoming, hlines]
        refine List.rel_append (hlogged.pieces chat) ?_
        split
        · rw [hstored]
          exact .cons (List.take_prefix _ _) .nil
        · exact .nil
      · rw [incomingPieces_incoming, hlines, hlogged.whole chat ((hshorter chat).trans_lt hroom)]
        congr 1
        split
        · rename_i hchat
          subst hchat
          have hlength : ((stepBusWrite kernel (.incoming chatIdx sender message)).chats
              chatIdx).bufLen = (kernel.chats chatIdx).bufLen +
                (scnprintf (kernel.chats chatIdx).room (senderLine sender message)).length := by
            simp only [stepBusWrite, BusCommand.apply, assign_self, ChatDev.append]
          rw [hlength, hstored, List.length_take] at hroom
          rw [hstored, List.take_of_length_le (by omega)]
        · rfl

theorem exists_set_of_setLine {chatIdx : ℕ} {tgChatId : Int} {command : BusCommand}
    (hcommand : busWriteCommand (setLine chatIdx tgChatId) true = .ok command) :
    ∃ id, command = .set chatIdx id := by
  rw [busWriteCommand, cstr_eq_self_iff.mpr (zero_not_mem_setLine chatIdx tgChatId), setLine_eq]
    at hcommand
  split at hcommand
  · cases hcommand
  rw [if_neg (by simp)] at hcommand
  by_cases hidx : chatIdx < maxChats
  · rw [parseBusLine_set hidx] at hcommand
    cases hcommand
    exact ⟨_, rfl⟩
  · simp only [parseBusLine, strsep_append (show bar ∉ [0x53, 0x45, 0x54] by decide),
      strsep_append (bar_not_mem_decimal chatIdx), parseIdx_decimal_eq, if_neg hidx,
      Option.bind_none] at hcommand
    cases hcommand

/-- A binding adds no line. -/
theorem Logged.bind {kernel : System.State} {commands : List BusCommand}
    (hlogged : Logged kernel commands) (chatIdx : ℕ) (tgChatId : Int) :
    Logged (System.step kernel (.busWrite (setLine chatIdx tgChatId) true)) commands := by
  cases hcommand : busWriteCommand (setLine chatIdx tgChatId) true with
  | error code =>
      simp only [System.step, hcommand]
      exact hlogged
  | ok command =>
      obtain ⟨id, rfl⟩ := exists_set_of_setLine hcommand
      obtain ⟨hlog, hstored, hpieces, hwhole⟩ := hlogged.busWrite hcommand
      simp only [lines_append_set] at hpieces hwhole
      rw [← stepBusWrite_eq hcommand]
      exact ⟨hlog, hstored, hpieces, hwhole⟩

/-! ## Numbers and offsets -/

/-- The offset of the next request of a session. -/
def nextOffset (handled : List Update) : Int :=
  (handled.getLast?.map fun update => updateKey update + 1).getD 0

theorem nextOffset_append (handled : List Update) (update : Update) :
    nextOffset (handled ++ [update]) = updateKey update + 1 := by
  rw [nextOffset, List.getLast?_concat]
  rfl

section Offsets

variable {State Event : Type} {service : Service State Event} {state : State} {resumed : ℕ}
  {confirmed : ℕ} {handled : List Update}

/-- The offset is behind all that is handled and in front of all that is not. -/
theorem nextOffset_separates (hservice : Documented service updateKey)
    (hsession : Session (service.arrived state) confirmed resumed handled) :
    0 ≤ nextOffset handled ∧ (∀ update ∈ handled, updateKey update < nextOffset handled) ∧
      ∀ update ∈ unhandled (service.arrived state) resumed handled,
        nextOffset handled ≤ updateKey update := by
  have hpairwise := (hservice.increasing state).drop (i := resumed)
  rw [hsession.drop_eq, List.pairwise_append] at hpairwise
  obtain ⟨hinside, -, hacross⟩ := hpairwise
  have hpositive : ∀ update ∈ handled ++ unhandled (service.arrived state) resumed handled,
      0 < updateKey update := fun update hmem => by
    rw [← hsession.drop_eq] at hmem
    exact hservice.positive state update (List.mem_of_mem_drop hmem)
  induction handled using List.reverseRecOn with
  | nil =>
      exact ⟨le_rfl, fun update hmem => absurd hmem List.not_mem_nil,
        fun update hmem => (hpositive update hmem).le⟩
  | append_singleton before last _ =>
      rw [nextOffset_append]
      refine ⟨?_, fun update hmem => ?_, fun update hmem => ?_⟩
      · have hlast := hpositive last (List.mem_append_left _ (by simp))
        omega
      · rcases List.mem_append.mp hmem with hbefore | hlast
        · have hless := (List.pairwise_append.mp hinside).2.2 update hbefore last (by simp)
          omega
        · rw [List.mem_singleton.mp hlast]
          omega
      · have hless := hacross last (by simp) update hmem
        omega

/-- A request with that offset lets go of what the session has handled, and its
answer goes on from there. -/
theorem session_request (hservice : Documented service updateKey)
    (hsession : Session (service.arrived state) (service.confirmed state) resumed handled)
    (event : Event) :
    Session (service.arrived state)
        (service.confirmed (service.request event (nextOffset handled) state).1) resumed handled ∧
      (service.request event (nextOffset handled) state).2 <+:
        unhandled (service.arrived state) resumed handled := by
  obtain ⟨hoffset, hhandled, hrest⟩ := nextOffset_separates hservice hsession
  have hresumed := hsession.resumed_le.trans (hservice.confirmed_le state)
  have hconfirmed := hsession.confirmed_le
  have hlength := Session.length_front handled hresumed
  have hreleased := hservice.confirmed_request event hoffset hsession.arrived_eq
    (hlength ▸ hconfirmed) (fun update hmem => hhandled update ?_) hrest
  · have hanswer := hservice.answers event (nextOffset handled) state hoffset
    rw [hlength] at hreleased
    rw [Server.pending, hservice.arrived_request event _ state hoffset, hreleased] at hanswer
    rw [hreleased]
    exact ⟨hsession.acknowledge, hanswer⟩
  · have hresumedLength : ((service.arrived state).take resumed).length = resumed := by
      rw [List.length_take, Nat.min_eq_left hresumed]
    rw [List.drop_append, List.drop_of_length_le
      (hresumedLength.le.trans hsession.resumed_le), List.nil_append] at hmem
    exact List.mem_of_mem_drop hmem

end Offsets

/-! ## The invariant -/

section Runs

variable {State Event : Type} (service : Service State Event) (chatMap : ChatMap)

/-- Where the incoming thread is in its session. -/
def TaskFact (world : World State) : IncomingTask → Prop
  | .off => world.history.handled = []
  | .running loop batch =>
      batch <+: unhandled (service.arrived world.service) world.history.resumed
          world.history.handled ∧
        loop.offset = nextOffset world.history.handled ∧
          loop.written = world.history.handled.filterMap (acceptable chatMap.reverseGet)
  | .ended _ => ∃ update rest,
      unhandled (service.arrived world.service) world.history.resumed world.history.handled =
        update :: rest ∧ ¬ update.Passes chatMap.reverseGet

/-- The invariant of a run before which the service had let go of so many updates. -/
structure Invariant (before : ℕ) (world : World State) : Prop where
  session : Session (service.arrived world.service) (service.confirmed world.service)
    world.history.resumed world.history.handled
  earlier : (((service.arrived world.service).take world.history.resumed).drop before).Sublist
    world.history.earlier
  passed : ∀ update ∈ world.processed, update.Passes chatMap.reverseGet
  logged : Logged world.kernel (world.processed.filterMap (acceptable chatMap.reverseGet))
  task : TaskFact service chatMap world world.incoming
  binding : ∀ left, world.main = .binding left → world.incoming = .off
  idle : world.history.starts = 0 → world.main = .off ∧ world.incoming = .off
  first : world.history.starts ≤ 1 → world.history.earlier = [] ∧ world.history.resumed = before

variable {service chatMap} {before : ℕ} {world : World State}

theorem invariant_init (opened : ℕ → ℕ) (state : State) :
    Invariant service chatMap (service.confirmed state) (init service opened state) where
  session := Session.begin_ _ _
  earlier := by
    rw [init, List.drop_of_length_le (List.length_take_le _ _)]
  passed := fun _ hmem => absurd hmem List.not_mem_nil
  logged := ⟨logInvariant_init opened, logOfPieces_init opened, fun _ => .nil, fun _ _ => rfl⟩
  task := rfl
  binding := fun _ _ => rfl
  idle := fun _ => ⟨rfl, rfl⟩
  first := fun _ => ⟨rfl, rfl⟩

/-- A step of somebody else keeps what the incoming thread and the service know. -/
theorem Invariant.keep (hinv : Invariant service chatMap before world) {next : World State}
    (hservice : next.service = world.service) (hincoming : next.incoming = world.incoming)
    (hstarts : next.history.starts = world.history.starts)
    (hresumed : next.history.resumed = world.history.resumed)
    (hhandled : next.history.handled = world.history.handled)
    (hearlier : next.history.earlier = world.history.earlier)
    (hlogged : Logged next.kernel (world.processed.filterMap (acceptable chatMap.reverseGet)))
    (hbinding : ∀ left, next.main = .binding left → ∃ left, world.main = .binding left)
    (hoff : world.main = .off → next.main = .off) : Invariant service chatMap before next where
  session := by
    rw [hservice, hresumed, hhandled]
    exact hinv.session
  earlier := by
    rw [hservice, hresumed, hearlier]
    exact hinv.earlier
  passed := by
    rw [World.processed, hearlier, hhandled]
    exact hinv.passed
  logged := by
    rw [World.processed, hearlier, hhandled]
    exact hlogged
  task := by
    have htask := hinv.task
    rw [hincoming]
    cases hthread : world.incoming <;> rw [hthread] at htask <;>
      simp only [TaskFact, hservice, hresumed, hhandled] <;> exact htask
  binding := fun left hleft => by
    obtain ⟨bound, hbound⟩ := hbinding left hleft
    rw [hincoming]
    exact hinv.binding bound hbound
  idle := fun hzero => by
    obtain ⟨hmain, hthread⟩ := hinv.idle (hstarts ▸ hzero)
    exact ⟨hoff hmain, hincoming.trans hthread⟩
  first := by
    rw [hstarts, hearlier, hresumed]
    exact hinv.first

/-- A step of the service on its own. -/
theorem Invariant.meanwhile (hservice : Documented service updateKey)
    (hinv : Invariant service chatMap before world) (event : Event) :
    Invariant service chatMap before
      { world with service := service.meanwhile event world.service } := by
  have hmore := hservice.arrived_meanwhile event world.service
  have hresumed := hinv.session.resumed_le.trans (hservice.confirmed_le world.service)
  have hfront : (service.arrived (service.meanwhile event world.service)).take
      world.history.resumed = (service.arrived world.service).take world.history.resumed := by
    obtain ⟨new, hnew⟩ := hmore
    rw [← hnew, List.take_append_of_le_length hresumed]
  have hbehind : unhandled (service.arrived world.service) world.history.resumed
      world.history.handled <+: unhandled (service.arrived (service.meanwhile event world.service))
        world.history.resumed world.history.handled := hmore.drop _
  refine ⟨?_, ?_, hinv.passed, hinv.logged, ?_, hinv.binding, hinv.idle, hinv.first⟩
  · rw [hservice.confirmed_meanwhile]
    exact hinv.session.arrive hmore
  · rw [hfront]
    exact hinv.earlier
  · have htask := hinv.task
    cases hthread : world.incoming with
    | off =>
        rw [hthread] at htask
        exact htask
    | running loop batch =>
        rw [hthread] at htask
        exact ⟨htask.1.trans hbehind, htask.2⟩
    | ended failure =>
        rw [hthread] at htask
        obtain ⟨stuck, rest, hnext, hnot⟩ := htask
        rw [hnext] at hbehind
        obtain ⟨new, hnew⟩ := hbehind
        exact ⟨stuck, rest ++ new, by rw [← hnew, List.cons_append], hnot⟩

/-! ## The steps of the daemon -/

theorem Invariant.start (hinv : Invariant service chatMap before world) :
    Invariant service chatMap before (startStep service chatMap world) where
  session := Session.begin_ _ _
  earlier := hinv.session.released_sublist hinv.earlier
  passed := by
    rw [World.processed, startStep, List.append_nil]
    exact hinv.passed
  logged := by
    obtain ⟨hlog, hstored, hpieces, hwhole⟩ := hinv.logged
    rw [World.processed, startStep, List.append_nil]
    exact ⟨⟨hlog.1, hlog.2, hlog.3⟩, hstored, hpieces, hwhole⟩
  task := rfl
  binding := fun _ _ => rfl
  idle := fun hzero => absurd hzero (Nat.succ_ne_zero _)
  first := fun hfirst => by
    have hzero : world.history.starts = 0 := Nat.le_zero.mp (Nat.le_of_succ_le_succ hfirst)
    obtain ⟨hearlier, hresumed⟩ := hinv.first (hzero.le.trans zero_le_one)
    have htask := hinv.task
    rw [(hinv.idle hzero).2, TaskFact] at htask
    have hlower := hinv.session.resumed_le
    have hupper := hinv.session.confirmed_le
    rw [htask, List.length_nil] at hupper
    simp only [startStep, hearlier, htask]
    exact ⟨rfl, by omega⟩

/-- The main thread opens the loop of the incoming one. -/
theorem Invariant.open_ (hinv : Invariant service chatMap before world)
    (hmain : world.main = .binding []) :
    Invariant service chatMap before
      { world with main := .selecting, incoming := .running ⟨0, []⟩ [] } where
  session := hinv.session
  earlier := hinv.earlier
  passed := hinv.passed
  logged := hinv.logged
  task := by
    have htask := hinv.task
    rw [hinv.binding [] hmain, TaskFact] at htask
    simp only [TaskFact, htask]
    exact ⟨List.nil_prefix, rfl, rfl⟩
  binding := fun left hbinding => by cases hbinding
  idle := fun hzero => by
    have hmainOff := (hinv.idle hzero).1
    rw [hmain] at hmainOff
    cases hmainOff
  first := hinv.first

theorem readOp_ne_busWrite (phase : Phase) (interrupted : Bool) (ubuf : Text) (readable : Bool) :
    readOp phase interrupted ≠ .busWrite ubuf readable := by
  cases phase <;> exact fun heq => by cases heq

theorem afterRead_ne_binding (replies : List (Except Int Text)) (left : List (ℕ × Int)) :
    afterRead replies ≠ .binding left := by
  intro heq
  unfold afterRead at heq
  split at heq
  · cases heq
  · split at heq <;> cases heq
  · split at heq <;> cases heq

theorem Invariant.mainStep (hinv : Invariant service chatMap before world) (interrupted : Bool) :
    Invariant service chatMap before (mainStep chatMap interrupted world) := by
  cases hmain : world.main with
  | off | crashed | closed =>
      simp only [Relay.mainStep, hmain]
      exact hinv
  | binding left =>
      cases left with
      | nil =>
          simp only [Relay.mainStep, hmain]
          exact hinv.open_ hmain
      | cons item left =>
          simp only [Relay.mainStep, hmain]
          exact hinv.keep rfl rfl rfl rfl rfl rfl (hinv.logged.bind item.1 item.2)
            (fun later _ => ⟨item :: left, hmain⟩) fun hoff => by rw [hmain] at hoff; cases hoff
  | selecting =>
      simp only [Relay.mainStep, hmain]
      split
      · exact hinv.keep rfl rfl rfl rfl rfl rfl hinv.logged (fun left hleft => by cases hleft)
          fun hoff => by rw [hmain] at hoff; cases hoff
      · exact hinv
  | reading =>
      simp only [Relay.mainStep, hmain]
      exact hinv.keep rfl rfl rfl rfl rfl rfl (hinv.logged.step (readOp_ne_busWrite _ _))
        (fun left hleft => absurd hleft (afterRead_ne_binding _ left))
        fun hoff => by rw [hmain] at hoff; cases hoff
  | sending raw =>
      simp only [Relay.mainStep, hmain]
      exact hinv.keep rfl rfl rfl rfl rfl rfl hinv.logged (fun left hleft => by cases hleft)
        fun hoff => by rw [hmain] at hoff; cases hoff

/-! ## The steps of the incoming thread -/

/-- While the thread is running, no chats are bound and the daemon has been started. -/
theorem Invariant.running (hinv : Invariant service chatMap before world) {loop : LoopState}
    {batch : List Update} (hthread : world.incoming = .running loop batch) :
    (∀ left, world.main ≠ .binding left) ∧ world.history.starts ≠ 0 := by
  refine ⟨fun left hleft => ?_, fun hzero => ?_⟩
  · have hoff := hinv.binding left hleft
    rw [hthread] at hoff
    cases hoff
  · have hoff := (hinv.idle hzero).2
    rw [hthread] at hoff
    cases hoff

/-- A request acknowledges what the session has handled, and its answer, if there
is one, goes on from there. -/
theorem Invariant.request (hservice : Documented service updateKey)
    (hinv : Invariant service chatMap before world) {loop : LoopState}
    (hthread : world.incoming = .running loop []) (event : Event) {batch : List Update}
    (hbatch : batch <+: (service.request event loop.offset world.service).2) :
    Invariant service chatMap before { world with
      service := (service.request event loop.offset world.service).1
      incoming := .running loop batch } := by
  have htask := hinv.task
  rw [hthread] at htask
  obtain ⟨-, hoffset, hwritten⟩ := htask
  have hoffsetPos := (nextOffset_separates hservice hinv.session).1
  obtain ⟨hsession, hanswer⟩ := session_request hservice hinv.session event
  have harrived := hservice.arrived_request event _ world.service hoffsetPos
  rw [← hoffset] at hsession hanswer harrived
  have hrunning := hinv.running hthread
  refine ⟨?_, ?_, hinv.passed, hinv.logged, ⟨?_, hoffset, hwritten⟩,
    fun left hleft => absurd hleft (hrunning.1 left), fun hzero => absurd hzero hrunning.2,
    hinv.first⟩
  · rw [harrived]
    exact hsession
  · rw [harrived]
    exact hinv.earlier
  · rw [harrived]
    exact hbatch.trans hanswer

theorem exists_line_of_acceptable {reverseMap : Int → Option ℕ} {update : Update}
    {command : BusCommand} (hcommand : acceptable reverseMap update = some command) :
    ∃ line, busWriteCommand line true = .ok command := by
  simp only [acceptable, Option.bind_eq_bind, Option.bind_eq_some_iff] at hcommand
  obtain ⟨msg, -, text, -, chatIdx, -, senderChars, -, textChars, -, hline⟩ := hcommand
  refine ⟨injectLine chatIdx senderChars textChars, ?_⟩
  cases hresult : busWriteCommand (injectLine chatIdx senderChars textChars) true with
  | error code =>
      rw [hresult] at hline
      cases hline
  | ok taken =>
      rw [hresult] at hline
      exact congrArg Except.ok (Option.some.inj hline)

/-- The command of an update, if it has one, goes to its log. -/
theorem Logged.handle {kernel : System.State} {reverseMap : Int → Option ℕ} {before : List Update}
    (hlogged : Logged kernel (before.filterMap (acceptable reverseMap))) (update : Update) :
    Logged ((acceptable reverseMap update).toList.foldl stepBusWrite kernel)
      ((before ++ [update]).filterMap (acceptable reverseMap)) := by
  rw [List.filterMap_append]
  cases hcommand : acceptable reverseMap update with
  | none =>
      rw [List.filterMap_cons_none hcommand, List.filterMap_nil, List.append_nil]
      exact hlogged
  | some command =>
      obtain ⟨line, hline⟩ := exists_line_of_acceptable hcommand
      rw [List.filterMap_cons_some hcommand, List.filterMap_nil]
      exact hlogged.busWrite hline

theorem Invariant.handle (hinv : Invariant service chatMap before world) {loop : LoopState}
    {update : Update} {batch : List Update} (hthread : world.incoming = .running loop (update :: batch))
    (hpasses : update.Passes chatMap.reverseGet) :
    Invariant service chatMap before { world with
      kernel := ((acceptable chatMap.reverseGet update).toList).foldl stepBusWrite world.kernel
      incoming := .running (loop.past chatMap.reverseGet update) batch
      history := { world.history with handled := world.history.handled ++ [update] } } := by
  have htask := hinv.task
  rw [hthread] at htask
  obtain ⟨⟨later, hbatch⟩, -, hwritten⟩ := htask
  have hnext := hbatch.symm
  rw [List.cons_append] at hnext
  obtain ⟨updateId, hupdateId⟩ := Option.isSome_iff_exists.mp hpasses.1
  have hrunning := hinv.running hthread
  refine ⟨hinv.session.handle hnext, hinv.earlier, ?_, ?_, ⟨?_, ?_, ?_⟩,
    fun left hleft => absurd hleft (hrunning.1 left), fun hzero => absurd hzero hrunning.2,
    hinv.first⟩
  · intro other hother
    rw [World.processed, ← List.append_assoc] at hother
    rcases List.mem_append.mp hother with hold | hnew
    · exact hinv.passed other hold
    · rwa [List.mem_singleton.mp hnew]
  · rw [World.processed, ← List.append_assoc]
    exact hinv.logged.handle update
  · rw [Session.unhandled_handle hnext]
    exact List.prefix_append _ _
  · rw [nextOffset_append]
    simp only [LoopState.past, updateKey, hupdateId, Option.map_some, Option.getD_some]
  · rw [List.filterMap_append, ← hwritten]
    cases hcommand : acceptable chatMap.reverseGet update <;> simp [LoopState.past, hcommand]

/-- The thread ends in front of an update it does not get past. -/
theorem Invariant.fail (hinv : Invariant service chatMap before world) {loop : LoopState}
    {update : Update} {batch : List Update} (hthread : world.incoming = .running loop (update :: batch))
    (hnot : ¬ update.Passes chatMap.reverseGet) (failure : Failure) :
    Invariant service chatMap before { world with incoming := .ended failure } := by
  have htask := hinv.task
  rw [hthread] at htask
  obtain ⟨⟨later, hbatch⟩, -, -⟩ := htask
  have hrunning := hinv.running hthread
  exact ⟨hinv.session, hinv.earlier, hinv.passed, hinv.logged,
    ⟨update, batch ++ later, hbatch.symm, hnot⟩, fun left hleft => absurd hleft (hrunning.1 left),
    fun hzero => absurd hzero hrunning.2, hinv.first⟩

theorem Invariant.incomingStep (hservice : Documented service updateKey)
    (hinv : Invariant service chatMap before world) (exchange : Exchange Event) :
    Invariant service chatMap before (incomingStep service chatMap exchange world) := by
  cases hthread : world.incoming with
  | off | ended =>
      simp only [Relay.incomingStep, hthread]
      exact hinv
  | running loop batch =>
      cases batch with
      | nil =>
          simp only [Relay.incomingStep, hthread]
          cases exchange with
          | unsent => exact hinv
          | unanswered event => exact hinv.request hservice hthread event List.nil_prefix
          | answered event => exact hinv.request hservice hthread event (List.prefix_refl _)
      | cons update batch =>
          by_cases hpasses : update.Passes chatMap.reverseGet
          · have hwritten : (loop.past chatMap.reverseGet update).written.drop
                loop.written.length = (acceptable chatMap.reverseGet update).toList := by
              rw [LoopState.past, List.drop_left]
            simp only [Relay.incomingStep, hthread, processUpdate_of_passes hpasses, hwritten]
            exact hinv.handle hthread hpasses
          · obtain ⟨failure, hfailure⟩ := processUpdate_of_not_passes hpasses loop
            simp only [Relay.incomingStep, hthread, hfailure]
            exact hinv.fail hthread hpasses failure

theorem byUser_ne_busWrite {op : System.Op} (hop : byUser op = true) (ubuf : Text)
    (readable : Bool) : op ≠ .busWrite ubuf readable := by
  rintro rfl
  cases hop

theorem invariant_step (hservice : Documented service updateKey) (world : World State)
    (op : Relay.Op Event) (hinv : Invariant service chatMap before world) :
    Invariant service chatMap before (Relay.step service chatMap world op) := by
  cases op with
  | user op =>
      simp only [Relay.step]
      split
      · rename_i hop
        exact hinv.keep rfl rfl rfl rfl rfl rfl (hinv.logged.step (byUser_ne_busWrite hop))
          (fun left hleft => ⟨left, hleft⟩) id
      · exact hinv
  | service event => exact hinv.meanwhile hservice event
  | start => exact hinv.start
  | main interrupted => exact hinv.mainStep interrupted
  | incoming exchange => exact hinv.incomingStep hservice exchange

/-! ## Every run -/

variable (service chatMap before world)

/-- What the daemon does with the updates of a run before which the service had
let go of so many: each session handles those behind its start in order, each
once; the service lets go of handled updates only; what is handled is in the
logs, as far as there was room; and a thread that ended stands in front of the
first update it does not get past. -/
structure Delivered : Prop where
  session : world.history.handled <+:
    (service.arrived world.service).drop world.history.resumed
  resumed_le : world.history.resumed ≤ service.confirmed world.service
  kept : ((service.released world.service).drop before).Sublist world.processed
  once : world.history.starts ≤ 1 →
    world.processed <+: (service.arrived world.service).drop before
  passed : ∀ update ∈ world.processed, update.Passes chatMap.reverseGet
  stored : LogOfPieces world.kernel
  logged : ∀ chat, List.Forall₂ (· <+: ·) (incomingPieces world.kernel chat)
    ((world.processed.filterMap (acceptable chatMap.reverseGet)).filterMap (lineFor chat))
  logged_whole : ∀ chat, (world.kernel.chats chat).bufLen < msgBuffSize - 1 →
    incomingPieces world.kernel chat =
      (world.processed.filterMap (acceptable chatMap.reverseGet)).filterMap (lineFor chat)
  ended : ∀ failure, world.incoming = .ended failure → ∃ update,
    (service.arrived world.service)[world.history.resumed + world.history.handled.length]? =
      some update ∧ ¬ update.Passes chatMap.reverseGet

variable {service chatMap before world}

theorem Invariant.delivered (hinv : Invariant service chatMap before world) :
    Delivered service chatMap before world where
  session := hinv.session.in_order
  resumed_le := hinv.session.resumed_le
  kept := hinv.session.released_sublist hinv.earlier
  once := fun hfirst => by
    obtain ⟨hearlier, hresumed⟩ := hinv.first hfirst
    have hprefix := hinv.session.in_order
    rw [hresumed] at hprefix
    rwa [World.processed, hearlier]
  passed := hinv.passed
  stored := hinv.logged.stored
  logged := hinv.logged.pieces
  logged_whole := hinv.logged.whole
  ended := fun failure hthread => by
    have htask := hinv.task
    rw [hthread] at htask
    obtain ⟨update, rest, hnext, hnot⟩ := htask
    refine ⟨update, ?_, hnot⟩
    rw [← List.head?_drop, ← unhandled, hnext, List.head?_cons]

end Runs

/-- With any service that keeps its promises, in any run. -/
theorem delivered_execute {State Event : Type} (service : Service State Event)
    (hservice : Documented service updateKey) (chatMap : ChatMap) (opened : ℕ → ℕ)
    (state : State) (ops : List (Relay.Op Event)) :
    Delivered service chatMap (service.confirmed state)
      (Relay.execute service chatMap (init service opened state) ops) :=
  (Schedules.foldl_invariant (Relay.step service chatMap) (invariant_step hservice)
    (invariant_init opened state) ops).delivered

/-! ## A service for a small run -/

/-- The updates for messages, numbered from one on. -/
def updatesOf (messages : List (Option Message)) : List Update :=
  messages.mapIdx fun i message => ⟨some (i + 1), message⟩

/-- The messages for a bot, and how many of their updates are let go of. -/
structure Inbox where
  messages : List (Option Message)
  released : ℕ
  released_le : released ≤ messages.length

/-- A message comes in, or a request is answered with so many updates at most. -/
inductive InboxEvent
  | message (message : Option Message)
  | batch (limit : ℕ)

def InboxEvent.limit : InboxEvent → ℕ
  | .message _ => 0
  | .batch limit => limit

/-- `getUpdates` on such an inbox. -/
def inboxService : Service Inbox InboxEvent where
  arrived inbox := updatesOf inbox.messages
  confirmed := Inbox.released
  meanwhile event inbox :=
    match event with
    | .message message => ⟨inbox.messages ++ [message], inbox.released, by
        rw [List.length_append]
        exact inbox.released_le.trans (Nat.le_add_right _ _)⟩
    | .batch _ => inbox
  request event offset inbox :=
    let released := max inbox.released (min (offset - 1).toNat inbox.messages.length)
    (⟨inbox.messages, released, max_le inbox.released_le (min_le_right _ _)⟩,
      ((updatesOf inbox.messages).drop released).take event.limit)

theorem updateKey_getElem (messages : List (Option Message)) {i : ℕ}
    (hi : i < (updatesOf messages).length) : updateKey (updatesOf messages)[i] = i + 1 := by
  simp [updatesOf, updateKey]

theorem lt_key_of_mem_drop {messages : List (Option Message)} {count : ℕ} {update : Update}
    (hmem : update ∈ (updatesOf messages).drop count) : (count : Int) < updateKey update := by
  obtain ⟨i, hi, rfl⟩ := List.mem_drop_iff_getElem.mp hmem
  rw [updateKey_getElem]
  omega

theorem key_le_of_mem_take {messages : List (Option Message)} {count : ℕ} {update : Update}
    (hmem : update ∈ (updatesOf messages).take count) : updateKey update ≤ count := by
  obtain ⟨i, hi, rfl⟩ := List.mem_take_iff_getElem.mp hmem
  rw [updateKey_getElem]
  omega

theorem length_updatesOf (messages : List (Option Message)) :
    (updatesOf messages).length = messages.length := List.length_mapIdx

theorem documented_inboxService : Documented inboxService updateKey where
  positive := fun inbox update hmem => @lt_key_of_mem_drop inbox.messages 0 update hmem
  increasing := fun inbox => by
    refine List.pairwise_iff_getElem.mpr fun i j hi hj hless => ?_
    simp only [inboxService, updateKey_getElem]
    omega
  confirmed_le := fun inbox => (length_updatesOf inbox.messages).symm ▸ inbox.released_le
  arrived_meanwhile := fun event inbox => by
    cases event with
    | message message =>
        refine ⟨[⟨some (inbox.messages.length + 1), message⟩], ?_⟩
        simp [inboxService, updatesOf, List.mapIdx_append]
    | batch limit => exact List.prefix_refl _
  confirmed_meanwhile := fun event inbox => by cases event <;> rfl
  arrived_request := fun event offset inbox _ => rfl
  for_good := fun event offset inbox _ => le_max_left _ _
  lets_go := fun event offset inbox _ update hmem => by
    have hlower := lt_key_of_mem_drop hmem
    have hinside : update ∈ (updatesOf inbox.messages).take inbox.messages.length := by
      rw [← length_updatesOf, List.take_length]
      exact List.mem_of_mem_drop hmem
    have hupper := key_le_of_mem_take hinside
    simp only [inboxService] at hlower
    omega
  keeps := fun event offset inbox _ update hmem => by
    have hupper := key_le_of_mem_take (List.mem_of_mem_drop hmem)
    rw [Server.released, List.drop_take] at hmem
    have hlower := lt_key_of_mem_drop (List.mem_of_mem_take hmem)
    simp only [inboxService] at hlower hupper
    omega
  answers := fun event offset inbox _ => List.take_prefix _ _

/-- One chat is mapped. -/
def oneChat : ChatMap := ⟨[(0, -100)], by decide⟩

/-- A text from that chat. -/
def textMessage (text : PyString) : Option Message := some ⟨some (-100), some ⟨none⟩, some text⟩

/-- Two texts and an update without a message come in; the daemon is killed before
it acknowledges the last of them, and gets that one again. -/
def killedOnce : List (Relay.Op InboxEvent) :=
  [.start, .main false, .main false, .service (.message (textMessage [some 'a'])),
    .service (.message none), .service (.message (textMessage [some 'b'])),
    .incoming (.answered (.batch 2)), .incoming .unsent, .incoming .unsent,
    .incoming (.answered (.batch 5)), .incoming .unsent, .start, .main false, .main false,
    .incoming (.unanswered (.batch 5)), .incoming (.answered (.batch 5)), .incoming .unsent,
    .incoming (.answered (.batch 5))]

def inboxWorld : World Inbox :=
  Relay.execute inboxService oneChat (init inboxService (fun _ => 0) ⟨[], 0, le_rfl⟩) killedOnce

theorem delivered_killedOnce : Delivered inboxService oneChat 0 inboxWorld ∧
    inboxWorld.processed.map updateKey = [1, 2, 3, 3] ∧
      (incomingPieces inboxWorld.kernel 0).length = 3 :=
  ⟨delivered_execute inboxService documented_inboxService oneChat (fun _ => 0) ⟨[], 0, le_rfl⟩
    killedOnce, by decide +kernel, by decide +kernel⟩

end DoomsdayModules.Telegram.RelayIncoming
