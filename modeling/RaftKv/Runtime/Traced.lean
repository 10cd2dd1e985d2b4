import RaftKv.Runtime.Provenance

/-! # One proposal for each command

The entries that proposals have created, over a whole run of the system: each has its own
data, which is a command that some client asked for, and everything in the logs, the
files, the messages and the stores is one of them.
-/

namespace RaftKv.Fleet

open RaftKv.Runtime

variable {D : Type} {setup : Setup}
  {f next : Fleet D} {created : List Entry}

/-! ## Numbers -/

section

variable [Blob D] {codec : StoreCodec D}

/-- Request numbers of different incarnations of a node do not collide, and no incarnation
uses up all numbers. -/
def DistinctNumbers (f : Fleet D) : FleetAction D → Prop
  | .event node (.write _ _) =>
      (∀ request ∈ f.past node, number request ≠ (f.node node).allocateRequestId.2) ∧
      (f.node node).requests.length + 1 < 2 ^ 64
  | _ => True

instance (f : Fleet D) (action : FleetAction D) : Decidable (f.DistinctNumbers action) :=
  match action with
  | .event node (.write _ _) => inferInstanceAs (Decidable (
      (∀ request ∈ f.past node, number request ≠ (f.node node).allocateRequestId.2) ∧
        (f.node node).requests.length + 1 < 2 ^ 64))
  | .event _ (.receive _) | .event _ (.tick _) | .event _ (.raft _) | .event _ .store
  | .event _ .restored | .event _ .timeout | .event _ (.read _) | .event _ (.expire _ _)
  | .event _ .signal | .restart _ _ _ => .isTrue trivial

/-- The runs considered: indices stay in range and numbers do not collide. -/
def Regular (f : Fleet D) (action : FleetAction D) : Prop :=
  f.InRange action ∧ f.DistinctNumbers action

instance (f : Fleet D) (action : FleetAction D) : Decidable (f.Regular action) :=
  inferInstanceAs (Decidable (_ ∧ _))

/-- All requests that a node was given, in all its incarnations. -/
def asked (f : Fleet D) (i : Nat) : List Request := f.past i ++ (f.node i).requests

end

section Reach

variable [Blob D] [DecidableEq D] {codec : StoreCodec D}

theorem Reach.settled {Ok : Fleet D → FleetAction D → Prop} (hreach : Reach codec setup Ok f)
    (hrange : ∀ f action, Ok f action → InRange f action) {i : Nat} (hi : i ∈ setup.members) :
    ReadsSettled (f.node i) :=
  (hreach.node hrange hi).settled

theorem Reach.numbered {Ok : Fleet D → FleetAction D → Prop} (hreach : Reach codec setup Ok f)
    (hrange : ∀ f action, Ok f action → InRange f action) {i : Nat} (hi : i ∈ setup.members) :
    ∃ first, Numbered first (f.node i) := by
  refine hreach.induction (motive := fun f => ∃ first, Numbered first (f.node i)) ?_ ?_
  · intro f hinitial
    obtain ⟨draws, requestId, hnew⟩ := hinitial.2.2 i hi
    exact new_numbered hnew
  · intro f next action hreach ih _ hstep
    cases action with
    | event node event =>
        obtain ⟨-, -, n, sent, hevent, rfl⟩ := step_event hstep
        by_cases hnode : i = node
        · subst hnode
          obtain ⟨first, hnumbered⟩ := ih
          have hrequested := (step_happens hevent).requested (hreach.settled hrange hi)
          rw [after_self]
          exact ⟨first, hrequested.numbered hnumbered⟩
        · rwa [after_of_ne hnode]
    | restart node draws requestId =>
        obtain ⟨-, n, hnew, rfl⟩ := step_restart hstep
        by_cases hnode : i = node
        · subst hnode
          rw [restarted_self]
          exact new_numbered hnew
        · rwa [restarted_of_ne hnode]

/-- A write gets a number that none of the node's requests had before. -/
theorem Reach.fresh {node : Nat} {type : CommandType} {strs : List Bytes}
    (hreach : Reach codec setup Regular f) (hnode : node ∈ setup.members)
    (hok : f.Regular (.event node (.write type strs))) {request : Request}
    (hrequest : request ∈ f.asked node) :
    number request ≠ (f.node node).allocateRequestId.2 := by
  obtain ⟨-, hpast, hfew⟩ := hok
  rcases List.mem_append.mp hrequest with hold | hnew
  · exact hpast request hold
  · obtain ⟨first, hnumbered⟩ := hreach.numbered (fun _ _ h => h.1) hnode
    exact hnumbered.fresh hfew hnew

end Reach

/-! ## Entries and proposals -/

section

variable [Blob D] {codec : StoreCodec D}

/-- What is known about every entry with data and every waiting proposal. -/
structure Traced (codec : StoreCodec D) (setup : Setup) (created : List Entry) (f : Fleet D) :
    Prop where
  held : ∀ i ∈ setup.members, (f.node i).Within (Known created)
  net : ∀ msg ∈ f.net, msg.Within (Known created)
  origin : ∀ e ∈ created, ∃ i ∈ setup.members, ∃ command, Request.write command ∈ f.asked i ∧
    e.data = codec.packCommand command
  unique : (created.map Entry.data).Nodup
  waiting : ∀ i ∈ setup.members, ∀ p ∈ (f.node i).proposals, ∃ command,
    Request.write command ∈ f.asked i ∧ p = (command.requestId, codec.packCommand command) ∧
      p.2 ∉ created.map Entry.data
  once : ∀ i ∈ setup.members, ((f.node i).proposals.map Prod.snd).Nodup
  named : ∀ i ∈ setup.members, ∀ command, Request.write command ∈ f.asked i →
    command.originNode = i
  numbered : ∀ i ∈ setup.members, ∀ a b, Request.write a ∈ f.asked i → Request.write b ∈ f.asked i →
    a.requestId = b.requestId → a = b

/-- The command has been asked for, is in no entry and will not be proposed. -/
structure Dead (codec : StoreCodec D) (setup : Setup) (created : List Entry) (f : Fleet D)
    (command : Command) : Prop where
  asked : ∃ i ∈ setup.members, Request.write command ∈ f.asked i
  created : codec.packCommand command ∉ created.map Entry.data
  waiting : ∀ i ∈ setup.members, codec.packCommand command ∉ (f.node i).proposals.map Prod.snd

end

section Event

variable {i : Nat} {n : Runtime D} {sent : List (Message D)} {event : Runtime.Event D}

theorem asked_after_of_ne {j : Nat} (hne : j ≠ i) : (f.after i n sent).asked j = f.asked j := by
  simp only [asked, after_of_ne hne]
  rfl

theorem asked_after_self : (f.after i n sent).asked i = f.past i ++ n.requests := by
  simp only [asked, after_self]
  rfl

/-- What was asked for before, still is; and a write that is new is that of the event. -/
theorem asked_after (sent : List (Message D)) (hrequested : Requested (f.node i) event n)
    (j : Nat) :
    (∀ request ∈ f.asked j, request ∈ (f.after i n sent).asked j) ∧
      ∀ command, Request.write command ∈ (f.after i n sent).asked j →
        Request.write command ∈ f.asked j ∨ j = i ∧ ∃ type strs, event = .write type strs ∧
          command = ⟨type, strs, (f.node i).config.id, (f.node i).allocateRequestId.2⟩ := by
  by_cases hj : j = i
  · subst hj
    rw [asked_after_self]
    cases hrequested with
    | nothing hrequests =>
        rw [hrequests]
        exact ⟨fun _ h => h, fun _ => .inl⟩
    | write type strs hevent hrequests =>
        rw [hrequests, ← List.append_assoc]
        refine ⟨fun _ h => List.mem_append_left _ h, fun command hcommand => ?_⟩
        refine (List.mem_append.mp hcommand).imp_right fun hnew => ⟨rfl, type, strs, hevent, ?_⟩
        exact Request.write.inj (List.mem_singleton.mp hnew)
    | read key hevent hrequests =>
        rw [hrequests, ← List.append_assoc]
        refine ⟨fun _ h => List.mem_append_left _ h, fun command hcommand => .inl ?_⟩
        refine (List.mem_append.mp hcommand).resolve_right fun hnew => ?_
        cases List.mem_singleton.mp hnew
  · rw [asked_after_of_ne hj]
    exact ⟨fun _ h => h, fun _ => .inl⟩

theorem tail_sublist {task : RaftTask D} {rest : List (RaftTask D)} {m : Runtime D}
    (hqueue : m.raftTasks = task :: rest) :
    (rest.filterMap proposal?).Sublist m.proposals := by
  rw [proposals, hqueue]
  exact (List.sublist_cons_self task rest).filterMap _

theorem Requested.write_mem {type : CommandType} {strs : List Bytes}
    (hrequested : Requested (f.node i) (.write type strs) n) :
    Request.write ⟨type, strs, (f.node i).config.id, (f.node i).allocateRequestId.2⟩ ∈
      (f.after i n sent).asked i := by
  rw [asked_after_self]
  cases hrequested with
  | nothing _ _ hwrite => exact absurd rfl (hwrite type strs)
  | write type' strs' hevent hrequests =>
      obtain ⟨rfl, rfl⟩ := Runtime.Event.write.inj hevent
      simp [hrequests]
  | read key hevent => cases hevent

variable [Blob D] {codec : StoreCodec D}

/-- A number that is new makes a command that was never asked for. -/
theorem Traced.packCommand_ne {type : CommandType} {strs : List Bytes}
    (htraced : Traced codec setup created f) (hid : (f.node i).config.id = i)
    (hfresh : ∀ request ∈ f.asked i, number request ≠ (f.node i).allocateRequestId.2)
    {j : Nat} (hj : j ∈ setup.members) {command : Command}
    (hcommand : Request.write command ∈ f.asked j) :
    codec.packCommand command ≠
      codec.packCommand ⟨type, strs, (f.node i).config.id, (f.node i).allocateRequestId.2⟩ := by
  intro hpack
  obtain rfl := codec.packCommand_injective hpack
  obtain rfl : i = j := hid.symm.trans (htraced.named j hj _ hcommand)
  exact hfresh _ hcommand rfl

/-- The first task of the queue, when it is a proposal. -/
theorem Traced.head {requestId : Nat} {bytes : Bytes} {rest : List (RaftTask D)}
    (htraced : Traced codec setup created f) (hi : i ∈ setup.members)
    (hqueue : (f.node i).raftTasks = .propose requestId bytes :: rest) :
    (requestId, bytes) ∈ (f.node i).proposals ∧
      bytes ∉ (rest.filterMap proposal?).map Prod.snd := by
  have hproposals : (f.node i).proposals = (requestId, bytes) :: rest.filterMap proposal? := by
    simp [proposals, hqueue, proposal?]
  have honce := htraced.once i hi
  rw [hproposals] at honce ⊢
  exact ⟨List.mem_cons_self, (List.nodup_cons.mp honce).1⟩

/-- What waits at one node waits at no other. -/
theorem Traced.apart (htraced : Traced codec setup created f) {j : Nat} (hi : i ∈ setup.members)
    (hj : j ∈ setup.members) (hne : j ≠ i) {p q : Nat × Bytes} (hp : p ∈ (f.node i).proposals)
    (hq : q ∈ (f.node j).proposals) : q.2 ≠ p.2 := by
  obtain ⟨a, ha, rfl, -⟩ := htraced.waiting i hi p hp
  obtain ⟨b, hb, rfl, -⟩ := htraced.waiting j hj q hq
  intro hpack
  obtain rfl := codec.packCommand_injective hpack
  exact hne ((htraced.named j hj b hb).symm.trans (htraced.named i hi b ha))

theorem Traced.origin_after (htraced : Traced codec setup created f) (hi : i ∈ setup.members)
    (hrequested : Requested (f.node i) event n) :
    ∀ e ∈ created ++ (f.node i).creates event, ∃ j ∈ setup.members, ∃ command,
      Request.write command ∈ (f.after i n sent).asked j ∧ e.data = codec.packCommand command := by
  intro e he
  rcases List.mem_append.mp he with hold | hnew
  · obtain ⟨j, hj, command, hcommand, hdata⟩ := htraced.origin e hold
    exact ⟨j, hj, command, (asked_after sent hrequested j).1 _ hcommand, hdata⟩
  · rcases (f.node i).creates_cases event with
      hnil | ⟨turn, requestId, bytes, rest, -, hqueue, -, -, hone⟩
    · simp [hnil] at hnew
    · rw [hone] at hnew
      obtain rfl := List.mem_singleton.mp hnew
      obtain ⟨command, hcommand, hp, -⟩ := htraced.waiting i hi _ (htraced.head hi hqueue).1
      exact ⟨i, hi, command, (asked_after sent hrequested i).1 _ hcommand, (Prod.mk.inj hp).2⟩

theorem Traced.unique_after (htraced : Traced codec setup created f) (hi : i ∈ setup.members)
    (event : Runtime.Event D) : ((created ++ (f.node i).creates event).map Entry.data).Nodup := by
  rcases (f.node i).creates_cases event with
    hnil | ⟨turn, requestId, bytes, rest, -, hqueue, -, -, hone⟩
  · rw [hnil, List.append_nil]
    exact htraced.unique
  · obtain ⟨-, -, -, hnot⟩ := htraced.waiting i hi _ (htraced.head hi hqueue).1
    rw [hone, List.map_append]
    refine List.Nodup.append htraced.unique (List.nodup_singleton _) ?_
    exact List.disjoint_singleton.mpr hnot

/-- The proposals that an event leaves, apart from that of a new write, were there before
and are not the one it has run. -/
theorem Traced.left (htraced : Traced codec setup created f) (hi : i ∈ setup.members)
    (hproposed : Proposed codec (f.node i) event n) {j : Nat} (hj : j ∈ setup.members)
    {p : Nat × Bytes} (hp : p ∈ ((f.after i n sent).node j).proposals) :
    p ∈ (f.node j).proposals ∧ p.2 ∉ ((f.node i).creates event).map Entry.data ∨
      j = i ∧ ∃ type strs, event = .write type strs ∧ p = ((f.node i).allocateRequestId.2,
        codec.packCommand ⟨type, strs, (f.node i).config.id, (f.node i).allocateRequestId.2⟩) := by
  have hcreates := (f.node i).creates_cases event
  by_cases hji : j = i
  · subst hji
    rw [after_self] at hp
    cases hproposed with
    | same hproposals hraft => exact .inl ⟨hproposals ▸ hp, by simp [creates_of_not_raft hraft]⟩
    | asked type strs hevent hproposals =>
        have hnil : (f.node j).creates event = [] := creates_of_not_raft (by simp [hevent])
        rw [hproposals] at hp
        rcases List.mem_append.mp hp with hold | hnew
        · exact .inl ⟨hold, by simp [hnil]⟩
        · exact .inr ⟨rfl, type, strs, hevent, List.mem_singleton.mp hnew⟩
    | taken turn task rest hevent hqueue hproposals =>
        rw [hproposals] at hp
        refine .inl ⟨(tail_sublist hqueue).subset hp, ?_⟩
        rcases hcreates with hnil | ⟨_, requestId, bytes, rest', -, hqueue', -, -, hone⟩
        · simp [hnil]
        · obtain ⟨-, rfl⟩ := List.cons.inj (hqueue.symm.trans hqueue')
          rw [hone]
          intro hmem
          refine (htraced.head hj hqueue').2 ?_
          rw [← show p.2 = bytes from List.mem_singleton.mp hmem]
          exact List.mem_map_of_mem hp
  · rw [after_of_ne hji] at hp
    refine .inl ⟨hp, ?_⟩
    rcases hcreates with hnil | ⟨_, requestId, bytes, rest, -, hqueue, -, -, hone⟩
    · simp [hnil]
    · rw [hone]
      intro hmem
      exact htraced.apart hi hj hji (htraced.head hi hqueue).1 hp (List.mem_singleton.mp hmem)

theorem Traced.waiting_after (htraced : Traced codec setup created f) (hi : i ∈ setup.members)
    (hid : (f.node i).config.id = i) (hrequested : Requested (f.node i) event n)
    (hproposed : Proposed codec (f.node i) event n)
    (hfresh : ∀ type strs, event = .write type strs → ∀ request ∈ f.asked i,
      number request ≠ (f.node i).allocateRequestId.2) {j : Nat} (hj : j ∈ setup.members)
    {p : Nat × Bytes} (hp : p ∈ ((f.after i n sent).node j).proposals) :
    ∃ command, Request.write command ∈ (f.after i n sent).asked j ∧
      p = (command.requestId, codec.packCommand command) ∧
        p.2 ∉ (created ++ (f.node i).creates event).map Entry.data := by
  rw [List.map_append, List.mem_append]
  rcases htraced.left hi hproposed hj hp with ⟨hold, hnew⟩ | ⟨rfl, type, strs, rfl, rfl⟩
  · obtain ⟨command, hcommand, heq, hnot⟩ := htraced.waiting j hj p hold
    exact ⟨command, (asked_after sent hrequested j).1 _ hcommand, heq, fun h => h.elim hnot hnew⟩
  · refine ⟨_, Requested.write_mem hrequested, rfl, fun h => h.elim (fun hmem => ?_) (by
      simp [creates_of_not_raft])⟩
    obtain ⟨e, he, hdata⟩ := List.mem_map.mp hmem
    obtain ⟨k, hk, command, hcommand, hpack⟩ := htraced.origin e he
    exact htraced.packCommand_ne hid (hfresh type strs rfl) hk hcommand (hpack.symm.trans hdata)

theorem Traced.once_after (htraced : Traced codec setup created f)
    (hid : (f.node i).config.id = i) (hproposed : Proposed codec (f.node i) event n)
    (hfresh : ∀ type strs, event = .write type strs → ∀ request ∈ f.asked i,
      number request ≠ (f.node i).allocateRequestId.2) {j : Nat} (hj : j ∈ setup.members) :
    (((f.after i n sent).node j).proposals.map Prod.snd).Nodup := by
  by_cases hji : j = i
  · subst hji
    rw [after_self]
    cases hproposed with
    | same hproposals => exact hproposals ▸ htraced.once j hj
    | asked type strs hevent hproposals =>
        rw [hproposals, List.map_append]
        refine List.Nodup.append (htraced.once j hj) (List.nodup_singleton _) ?_
        refine List.disjoint_singleton.mpr fun hmem => ?_
        obtain ⟨p, hp, hbytes⟩ := List.mem_map.mp hmem
        obtain ⟨command, hcommand, rfl, -⟩ := htraced.waiting j hj p hp
        exact htraced.packCommand_ne hid (hfresh type strs hevent) hj hcommand hbytes
    | taken turn task rest hevent hqueue hproposals =>
        rw [hproposals]
        exact (htraced.once j hj).sublist ((tail_sublist hqueue).map _)
  · rw [after_of_ne hji]
    exact htraced.once j hj

theorem Traced.happens (htraced : Traced codec setup created f) (hi : i ∈ setup.members)
    (hid : (f.node i).config.id = i) (hsettled : ReadsSettled (f.node i))
    (hfresh : ∀ type strs, event = .write type strs → ∀ request ∈ f.asked i,
      number request ≠ (f.node i).allocateRequestId.2)
    (hreceived : ∀ msg, event = .receive msg → msg ∈ f.net)
    (hhappens : Happens codec (f.node i) event (n, sent)) :
    Traced codec setup (created ++ (f.node i).creates event) (f.after i n sent) := by
  obtain ⟨hwithin, hsent⟩ := hhappens.within hsettled (htraced.held i hi)
    fun msg hevent => htraced.net msg (hreceived msg hevent)
  have hrequested := hhappens.requested hsettled
  have hproposed := hhappens.proposed hsettled
  have hasked := fun j => asked_after sent hrequested j
  refine ⟨fun j hj => ?_, fun msg hmsg => ?_, htraced.origin_after hi hrequested,
    htraced.unique_after hi event,
    fun j hj p hp => htraced.waiting_after hi hid hrequested hproposed hfresh hj hp,
    fun j hj => htraced.once_after hid hproposed hfresh hj, fun j hj command hcommand => ?_, ?_⟩
  · by_cases hji : j = i
    · subst hji
      rw [after_self]
      exact hwithin
    · rw [after_of_ne hji]
      exact (htraced.held j hj).mono fun _ h => h.append
  · rcases List.mem_append.mp hmsg with hold | hnew
    · exact fun htype e he => (htraced.net msg hold htype e he).append
    · exact hsent msg hnew
  · rcases (hasked j).2 command hcommand with hold | ⟨rfl, type, strs, -, rfl⟩
    · exact htraced.named j hj command hold
    · exact hid
  · intro j hj a b ha hb hnumber
    rcases (hasked j).2 a ha with hold | ⟨rfl, type, strs, hevent, rfl⟩
    · rcases (hasked j).2 b hb with hold' | ⟨rfl, type, strs, hevent, rfl⟩
      · exact htraced.numbered j hj a b hold hold' hnumber
      · exact absurd hnumber (hfresh type strs hevent _ hold)
    · rcases (hasked j).2 b hb with hold' | ⟨-, type', strs', hevent', rfl⟩
      · exact absurd hnumber.symm (hfresh type strs hevent _ hold')
      · obtain ⟨rfl, rfl⟩ := Runtime.Event.write.inj (hevent.symm.trans hevent')
        rfl

/-- What will not be proposed stays so. -/
theorem Dead.happens {command : Command} (hdead : Dead codec setup created f command)
    (htraced : Traced codec setup created f) (hi : i ∈ setup.members)
    (hid : (f.node i).config.id = i) (hsettled : ReadsSettled (f.node i))
    (hfresh : ∀ type strs, event = .write type strs → ∀ request ∈ f.asked i,
      number request ≠ (f.node i).allocateRequestId.2)
    (hhappens : Happens codec (f.node i) event (n, sent)) :
    Dead codec setup (created ++ (f.node i).creates event) (f.after i n sent) command := by
  obtain ⟨k, hk, hasked⟩ := hdead.asked
  refine ⟨⟨k, hk, (asked_after sent (hhappens.requested hsettled) k).1 _ hasked⟩, ?_,
    fun j hj hmem => ?_⟩
  · rw [List.map_append, List.mem_append]
    rintro (hold | hnew)
    · exact hdead.created hold
    · rcases (f.node i).creates_cases event with
        hnil | ⟨_, requestId, bytes, rest, -, hqueue, -, -, hone⟩
      · simp [hnil] at hnew
      · rw [hone] at hnew
        refine hdead.waiting i hi ?_
        rw [show codec.packCommand command = bytes from List.mem_singleton.mp hnew]
        exact List.mem_map_of_mem (htraced.head hi hqueue).1
  · obtain ⟨p, hp, hbytes⟩ := List.mem_map.mp hmem
    rcases htraced.left hi (hhappens.proposed hsettled) hj hp with
      ⟨hold, -⟩ | ⟨rfl, type, strs, hevent, rfl⟩
    · exact hdead.waiting j hj (hbytes ▸ List.mem_map_of_mem hold)
    · exact htraced.packCommand_ne hid (hfresh type strs hevent) hk hasked hbytes.symm

end Event

end RaftKv.Fleet
