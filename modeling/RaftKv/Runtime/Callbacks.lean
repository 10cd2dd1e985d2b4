import RaftKv.Runtime.Loop

/-! # Callbacks

A request waits in one of the two tables of the store loop until its callback is invoked;
then it leaves the table. So no callback is invoked twice, whichever of the apply, the
rejection, the expiry and the stop comes first.
-/

namespace RaftKv.Runtime

variable {D : Type} {n m next : Runtime D}

/-- The callbacks invoked so far. -/
def answered (n : Runtime D) : List Nat := n.replies.map Prod.fst

structure Answering (n : Runtime D) : Prop where
  write : ∀ id callback, n.pendingWrites.get? id = some callback →
    (∃ command, n.requests[callback]? = some (.write command) ∧ command.requestId = id) ∧
      callback ∉ n.answered
  read : ∀ id pending, n.pendingReads.get? id = some pending →
    n.requests[pending.reply]? = some (.read id pending.key) ∧ pending.reply ∉ n.answered
  made : ∀ callback ∈ n.answered, callback < n.requests.length
  once : n.answered.Nodup

theorem Answering.of_clients (hanswering : Answering n) (hclients : m.clients = n.clients) :
    Answering m := by
  simp only [clients, Prod.mk.injEq] at hclients
  obtain ⟨hwrites, hreads, -, hrequests, hreplies⟩ := hclients
  have hanswered : m.answered = n.answered := by rw [answered, hreplies, answered]
  exact ⟨hwrites ▸ hrequests ▸ hanswered ▸ hanswering.write,
    hreads ▸ hrequests ▸ hanswered ▸ hanswering.read, hrequests ▸ hanswered ▸ hanswering.made,
    hanswered ▸ hanswering.once⟩

/-- A request that has been answered, and the table it has left. -/
theorem Answering.answer (hanswering : Answering n) {callback : Nat} {answer : Reply}
    (hmade : callback < n.requests.length) (hopen : callback ∉ n.answered)
    (hrequests : m.requests = n.requests) (hreplies : m.replies = n.replies ++ [(callback, answer)])
    (hwrites : ∀ id other, m.pendingWrites.get? id = some other →
      n.pendingWrites.get? id = some other ∧ other ≠ callback)
    (hreads : ∀ id pending, m.pendingReads.get? id = some pending →
      n.pendingReads.get? id = some pending ∧ pending.reply ≠ callback) : Answering m := by
  have hanswered : m.answered = n.answered ++ [callback] := by simp [answered, hreplies]
  have hnot : ∀ other, other ∉ n.answered → other ≠ callback → other ∉ m.answered := by
    intro other hother hne
    rw [hanswered]
    simp [hother, hne]
  constructor
  · intro id other hget
    obtain ⟨hold, hne⟩ := hwrites id other hget
    obtain ⟨hcommand, hout⟩ := hanswering.write id other hold
    exact ⟨hrequests ▸ hcommand, hnot other hout hne⟩
  · intro id pending hget
    obtain ⟨hold, hne⟩ := hreads id pending hget
    obtain ⟨hrequest, hout⟩ := hanswering.read id pending hold
    exact ⟨hrequests ▸ hrequest, hnot pending.reply hout hne⟩
  · intro other hother
    rw [hanswered, List.mem_append, List.mem_singleton] at hother
    rw [hrequests]
    exact hother.elim (hanswering.made other) fun h => h ▸ hmade
  · rw [hanswered]
    exact List.Nodup.append hanswering.once (List.nodup_singleton callback) (by simpa using hopen)

theorem Answering.answerWrite (hanswering : Answering n) (requestId : Nat) (answer : Reply) :
    Answering (n.answerWrite requestId answer) := by
  unfold Runtime.answerWrite
  split
  · exact hanswering
  next callback hget =>
    obtain ⟨⟨command, hrequest, hid⟩, hopen⟩ := hanswering.write requestId callback hget
    have hmade := (List.getElem?_eq_some_iff.mp hrequest).1
    refine hanswering.answer hmade hopen rfl rfl ?_ ?_
    · intro id other hother
      simp only [reply, Table.get?_erase] at hother
      split at hother
      · cases hother
      next hne =>
        refine ⟨hother, ?_⟩
        rintro rfl
        -- a callback belongs to one request, and that has one number
        obtain ⟨⟨command', hrequest', rfl⟩, -⟩ := hanswering.write id other hother
        rw [hrequest] at hrequest'
        cases hrequest'
        exact hne hid
    · intro id pending hpending
      refine ⟨hpending, ?_⟩
      rintro rfl
      rw [(hanswering.read id pending hpending).1] at hrequest
      cases hrequest

theorem Answering.answerRead (hanswering : Answering n) (requestId : Nat)
    (answer : PendingRead → Reply) : Answering (n.answerRead requestId answer) := by
  unfold Runtime.answerRead
  split
  · exact hanswering
  next pending hget =>
    obtain ⟨hrequest, hopen⟩ := hanswering.read requestId pending hget
    have hmade := (List.getElem?_eq_some_iff.mp hrequest).1
    refine hanswering.answer hmade hopen rfl rfl ?_ ?_
    · intro id other hother
      refine ⟨hother, ?_⟩
      rintro rfl
      obtain ⟨⟨command, hwrite, -⟩, -⟩ := hanswering.write id _ hother
      rw [hrequest] at hwrite
      cases hwrite
    · intro id other hother
      simp only [reply, Table.get?_erase] at hother
      split at hother
      · cases hother
      next hne =>
        refine ⟨hother, fun hsame => ?_⟩
        have hother' := (hanswering.read id other hother).1
        rw [hsame, hrequest] at hother'
        exact hne (Request.read.inj (Option.some.inj hother')).1.symm

/-- Values that determine their keys are distinct. -/
theorem nodup_values {α β : Type} (table : Table α) (f : α → β)
    (hinj : ∀ a b x y, table.get? a = some x → table.get? b = some y → f x = f y → a = b) :
    (table.values.map f).Nodup := by
  have hentries : table.entries.Nodup := List.Nodup.of_map _ table.nodup
  rw [Table.values, List.map_map]
  refine hentries.map_on ?_
  rintro ⟨a, x⟩ hx ⟨b, y⟩ hy hsame
  have ha := (table.mem_entries_iff a x).mp hx
  have hb := (table.mem_entries_iff b y).mp hy
  obtain rfl := hinj a b x y ha hb hsame
  rw [ha] at hb
  rw [Option.some.inj hb]

theorem mem_values {α : Type} {table : Table α} {x : α} (hx : x ∈ table.values) :
    ∃ key, table.get? key = some x := by
  obtain ⟨⟨key, _⟩, hmem, rfl⟩ := List.mem_map.mp hx
  exact ⟨key, (table.mem_entries_iff key _).mp hmem⟩

theorem stopClients_answered (n : Runtime D) : n.stopClients.answered =
    n.answered ++ n.pendingWrites.values ++ n.pendingReads.values.map (·.reply) := by
  simp [stopClients, answered, Function.comp_def]

theorem Answering.stopClients (hanswering : Answering n) : Answering n.stopClients := by
  have hwrites : n.pendingWrites.values.Nodup := by
    have hmap := nodup_values n.pendingWrites (fun callback => callback)
      (by
        rintro a b x y hx hy rfl
        obtain ⟨⟨command, hrequest, rfl⟩, -⟩ := hanswering.write a x hx
        obtain ⟨⟨command', hrequest', rfl⟩, -⟩ := hanswering.write b x hy
        rw [hrequest] at hrequest'
        cases hrequest'
        rfl)
    rwa [List.map_id''] at hmap
    exact fun _ => rfl
  have hreads : (n.pendingReads.values.map (·.reply)).Nodup := by
    refine nodup_values n.pendingReads _ ?_
    intro a b x y hx hy hsame
    have hrequest := (hanswering.read a x hx).1
    have hrequest' := (hanswering.read b y hy).1
    rw [hsame, hrequest'] at hrequest
    exact (Request.read.inj (Option.some.inj hrequest)).1.symm
  refine ⟨by simp [Runtime.stopClients], by simp [Runtime.stopClients], ?_, ?_⟩
  · intro callback hcallback
    rw [stopClients_answered, List.mem_append, List.mem_append] at hcallback
    rcases hcallback with (hold | hwrite) | hread
    · exact hanswering.made callback hold
    · obtain ⟨id, hget⟩ := mem_values hwrite
      obtain ⟨⟨command, hrequest, -⟩, -⟩ := hanswering.write id callback hget
      exact (List.getElem?_eq_some_iff.mp hrequest).1
    · obtain ⟨pending, hpending, rfl⟩ := List.mem_map.mp hread
      obtain ⟨id, hget⟩ := mem_values hpending
      exact (List.getElem?_eq_some_iff.mp (hanswering.read id pending hget).1).1
  · rw [stopClients_answered]
    refine List.Nodup.append (List.Nodup.append hanswering.once hwrites ?_) hreads ?_
    · intro callback hold hwrite
      obtain ⟨id, hget⟩ := mem_values hwrite
      exact (hanswering.write id callback hget).2 hold
    · intro callback hleft hread
      obtain ⟨pending, hpending, rfl⟩ := List.mem_map.mp hread
      obtain ⟨id, hget⟩ := mem_values hpending
      obtain ⟨hrequest, hopen⟩ := hanswering.read id pending hget
      rcases List.mem_append.mp hleft with hold | hwrite
      · exact hopen hold
      · obtain ⟨other, hother⟩ := mem_values hwrite
        obtain ⟨⟨command, hwritten, -⟩, -⟩ := hanswering.write other _ hother
        rw [hrequest] at hwritten
        cases hwritten

/-! ## Events -/

/-- A new request comes last in the list, and its callback is its position. -/
theorem Answering.request (hanswering : Answering n) {request : Request}
    (hrequests : m.requests = n.requests ++ [request]) (hreplies : m.replies = n.replies)
    (hwrites : ∀ id callback, m.pendingWrites.get? id = some callback →
      n.pendingWrites.get? id = some callback ∨ callback = n.requests.length ∧
        ∃ command, request = .write command ∧ command.requestId = id)
    (hreads : ∀ id pending, m.pendingReads.get? id = some pending →
      n.pendingReads.get? id = some pending ∨ pending.reply = n.requests.length ∧
        request = .read id pending.key) : Answering m := by
  have hanswered : m.answered = n.answered := by rw [answered, hreplies, answered]
  have hlast : n.requests.length ∉ n.answered := fun h =>
    Nat.lt_irrefl _ (hanswering.made _ h)
  have hkeep : ∀ {k : Nat} {old : Request}, n.requests[k]? = some old →
      m.requests[k]? = some old := by
    intro k old hget
    rw [hrequests, List.getElem?_append_left (List.getElem?_eq_some_iff.mp hget).1, hget]
  have hnew : m.requests[n.requests.length]? = some request := by simp [hrequests]
  constructor
  · intro id callback hget
    rw [hanswered]
    rcases hwrites id callback hget with hold | ⟨rfl, command, rfl, hid⟩
    · obtain ⟨⟨command, hrequest, hid⟩, hopen⟩ := hanswering.write id callback hold
      exact ⟨⟨command, hkeep hrequest, hid⟩, hopen⟩
    · exact ⟨⟨command, hnew, hid⟩, hlast⟩
  · intro id pending hget
    rw [hanswered]
    rcases hreads id pending hget with hold | ⟨hreply, rfl⟩
    · obtain ⟨hrequest, hopen⟩ := hanswering.read id pending hold
      exact ⟨hkeep hrequest, hopen⟩
    · rw [hreply]
      exact ⟨hnew, hlast⟩
  · intro callback hcallback
    rw [hanswered] at hcallback
    have := hanswering.made callback hcallback
    simp [hrequests]
    omega
  · exact hanswered ▸ hanswering.once

section

variable [Blob D]

theorem emplace_cases {α : Type} {table : Table α} {key id : Nat} {value x : α}
    (hget : (emplace table key value).get? id = some x) :
    table.get? id = some x ∨ id = key ∧ x = value := by
  unfold emplace at hget
  split at hget
  · exact .inl hget
  · rw [Table.get?_insert] at hget
    split at hget
    next hid => exact .inr ⟨hid, (Option.some.inj hget).symm⟩
    · exact .inl hget

end

theorem Answering.beginRead (hanswering : Answering n) (key : Bytes) :
    Answering (n.beginRead key) := by
  rw [beginRead_frame]
  refine hanswering.request rfl rfl (fun id callback hget => .inl hget) fun id pending hget => ?_
  refine (emplace_cases hget).imp_right ?_
  rintro ⟨rfl, rfl⟩
  exact ⟨rfl, rfl⟩

theorem Answering.expireClientRequests (hanswering : Answering n) (writes reads : List Nat) :
    Answering (n.expireClientRequests writes reads) := by
  have hfold : ∀ {f : Runtime D → Nat → Runtime D}, (∀ n id, Answering n → Answering (f n id)) →
      ∀ (ids : List Nat) (n : Runtime D), Answering n → Answering (ids.foldl f n) := by
    intro f hf ids
    induction ids with
    | nil => exact fun _ h => h
    | cons id ids ih => exact fun n h => ih _ (hf n id h)
  unfold Runtime.expireClientRequests
  refine hfold (fun n id h => ?_) _ _ (hfold (fun n id h => h.answerWrite id _) _ _ hanswering)
  exact (h.answerRead id _).of_clients rfl

theorem Answering.requestStop (hanswering : Answering n) (reason : StopReason) :
    Answering (n.requestStop reason) := by
  obtain ⟨ended, -, heq⟩ := n.requestStop_frame reason
  rw [heq]
  exact hanswering.of_clients rfl

section

variable [Blob D] {codec : StoreCodec D}

theorem Answering.beginWrite (hanswering : Answering n) (type : CommandType) (strs : List Bytes) :
    Answering (n.beginWrite codec type strs) := by
  rw [beginWrite_frame]
  refine hanswering.request rfl rfl (fun id callback hget => ?_) fun id pending hget => .inl hget
  refine (emplace_cases hget).imp_right ?_
  rintro ⟨rfl, rfl⟩
  exact ⟨rfl, _, rfl, rfl⟩

theorem Answering.applyCommittedEntry (hanswering : Answering n) (entry : Entry) :
    Answering (n.applyCommittedEntry codec entry) := by
  unfold Runtime.applyCommittedEntry
  split
  · exact hanswering
  · split
    · exact hanswering.of_clients rfl
    · split
      · exact hanswering.requestStop _
      · split
        · split
          · exact hanswering.requestStop _
          next store result _ =>
            have hstore : Answering { n with store := store } := hanswering.of_clients rfl
            dsimp only
            split
            · exact (hstore.answerWrite _ _).of_clients rfl
            · exact hstore.of_clients rfl
        · exact hanswering.of_clients rfl

theorem Answering.runStoreTask (hanswering : Answering n) (task : StoreTask D) :
    Answering (n.runStoreTask codec task) := by
  cases task with
  | apply entry => exact hanswering.applyCommittedEntry entry
  | rejectWrite requestId error => exact hanswering.answerWrite requestId _
  | rejectRead requestId error => exact hanswering.answerRead requestId _
  | completeRead requestId => exact hanswering.answerRead requestId _
  | capture => exact hanswering.of_clients rfl
  | restore index state =>
      rw [Runtime.runStoreTask]
      split <;> exact hanswering.of_clients rfl
  | stop => exact hanswering.stopClients

theorem Happens.answering {event : Event D} {result : Runtime D × List (Message D)}
    (hsettled : ReadsSettled n) (hanswering : Answering n)
    (hhappens : Happens codec n event result) : Answering result.1 := by
  have hloop : OnRaftLoop event → Answering result.1 := fun h =>
    hanswering.of_clients (hhappens.clients_eq hsettled h)
  cases hhappens with
  | receive msg => exact hanswering.of_clients rfl
  | store task rest hqueue =>
      exact (hanswering.of_clients (m := { n with storeTasks := rest }) rfl).runStoreTask task
  | write type strs => exact hanswering.beginWrite type strs
  | read key => exact hanswering.beginRead key
  | expire writes reads => exact hanswering.expireClientRequests writes reads
  | signal =>
      obtain ⟨ended, -, heq⟩ := n.stopOnce_frame
      rw [heq]
      exact hanswering.of_clients rfl
  | _ => exact hloop trivial

/-- A node starts without requests. -/
theorem new_clients {config : Config} {draws : List Nat} {requestId : Nat} {file : List (Record D)}
    (hnew : new codec config draws requestId file = some n) :
    n.clients = (Table.empty, Table.empty, requestId, [], []) := by
  unfold new at hnew
  obtain ⟨⟨r, store, applied⟩, -, rfl⟩ := Option.map_eq_some_iff.mp hnew
  rfl

theorem new_answering {config : Config} {draws : List Nat} {requestId : Nat}
    {file : List (Record D)} (hnew : new codec config draws requestId file = some n) :
    Answering n := by
  have hclients := new_clients hnew
  simp only [clients, Prod.mk.injEq] at hclients
  obtain ⟨hwrites, hreads, -, -, hreplies⟩ := hclients
  refine ⟨?_, ?_, ?_, ?_⟩
  · simp [hwrites]
  · simp [hreads]
  · simp [answered, hreplies]
  · simp [answered, hreplies]

end

/-! ## What the store loop touches -/

/-- The fields a task of the store loop writes to. -/
structure StoreFields (D : Type) where
  store : KVStore
  storeAppliedIndex : Nat
  pendingWrites : Table Nat
  pendingReads : Table PendingRead
  restored : Option Bool
  raftTasks : List (RaftTask D)
  stopping : Bool
  stops : List StopReason
  replies : List (Nat × Reply)
  processed : List Entry

def StoreFields.put (fields : StoreFields D) (n : Runtime D) : Runtime D :=
  { n with
    store := fields.store
    storeAppliedIndex := fields.storeAppliedIndex
    pendingWrites := fields.pendingWrites
    pendingReads := fields.pendingReads
    restored := fields.restored
    raftTasks := fields.raftTasks
    stopping := fields.stopping
    stops := fields.stops
    replies := fields.replies
    processed := fields.processed }

/-- The fields that giving up on requests writes to. -/
structure ClientFields (D : Type) where
  pendingWrites : Table Nat
  pendingReads : Table PendingRead
  raftTasks : List (RaftTask D)
  replies : List (Nat × Reply)

def ClientFields.put (fields : ClientFields D) (n : Runtime D) : Runtime D :=
  { n with
    pendingWrites := fields.pendingWrites
    pendingReads := fields.pendingReads
    raftTasks := fields.raftTasks
    replies := fields.replies }

theorem foldl_clientFields {f : Runtime D → Nat → Runtime D}
    (hf : ∀ n id, ∃ fields : ClientFields D, f n id = fields.put n) (ids : List Nat)
    (n : Runtime D) : ∃ fields : ClientFields D, ids.foldl f n = fields.put n := by
  induction ids generalizing n with
  | nil => exact ⟨⟨_, _, _, _⟩, rfl⟩
  | cons id ids ih =>
      obtain ⟨first, hfirst⟩ := hf n id
      obtain ⟨rest, hrest⟩ := ih (f n id)
      rw [List.foldl_cons, hrest, hfirst]
      exact ⟨rest, rfl⟩

theorem expireClientRequests_frame (n : Runtime D) (writes reads : List Nat) :
    ∃ fields : ClientFields D, n.expireClientRequests writes reads = fields.put n := by
  unfold expireClientRequests
  dsimp only
  obtain ⟨written, hwrites⟩ := foldl_clientFields (f := fun n requestId =>
      n.rejectWrite requestId .outcomeUnknown) (fun n id => by
    obtain ⟨pending, replies, heq⟩ := n.answerWrite_frame id (.error .outcomeUnknown)
    rw [rejectWrite, heq]
    exact ⟨⟨_, _, _, _⟩, rfl⟩) (n.pendingWrites.keys.filter (· ∈ writes)) n
  obtain ⟨read, hreads⟩ := foldl_clientFields (f := fun n requestId =>
      (n.rejectRead requestId .quorumUnavailable).postRaft (.cancelRead requestId)) (fun n id => by
    obtain ⟨pending, replies, heq⟩ := n.answerRead_frame id fun _ => .error .quorumUnavailable
    rw [rejectRead, heq]
    exact ⟨⟨_, _, _, _⟩, rfl⟩) ((written.put n).pendingReads.keys.filter (· ∈ reads))
      (written.put n)
  rw [hwrites, hreads]
  exact ⟨read, rfl⟩

section

variable [Blob D] {codec : StoreCodec D}

theorem runStoreTask_frame (codec : StoreCodec D) (n : Runtime D) (task : StoreTask D) :
    ∃ fields : StoreFields D, n.runStoreTask codec task = fields.put n := by
  have hstop : ∀ reason, ∃ fields : StoreFields D, n.requestStop reason = fields.put n := by
    intro reason
    obtain ⟨ended, -, heq⟩ := n.requestStop_frame reason
    exact ⟨⟨_, _, _, _, _, _, _, _, _, _⟩, heq⟩
  cases task with
  | apply entry =>
      rw [runStoreTask]
      unfold applyCommittedEntry
      split
      · exact ⟨⟨_, _, _, _, _, _, _, _, _, _⟩, rfl⟩
      · split
        · exact ⟨⟨_, _, _, _, _, _, _, _, _, _⟩, rfl⟩
        · split
          · exact hstop .applyGap
          · split
            · split
              · exact hstop .applyFailed
              next store result _ =>
                dsimp only
                split
                · obtain ⟨pending, replies, heq⟩ := answerWrite_frame { n with store := store }
                    result.requestId (if result.type = .set then .ok else .affected result.affected)
                  rw [completeWrite, heq]
                  exact ⟨⟨_, _, _, _, _, _, _, _, _, _⟩, rfl⟩
                · exact ⟨⟨_, _, _, _, _, _, _, _, _, _⟩, rfl⟩
            · exact ⟨⟨_, _, _, _, _, _, _, _, _, _⟩, rfl⟩
  | rejectWrite requestId error =>
      obtain ⟨pending, replies, heq⟩ := n.answerWrite_frame requestId (.error error)
      rw [runStoreTask, rejectWrite, heq]
      exact ⟨⟨_, _, _, _, _, _, _, _, _, _⟩, rfl⟩
  | rejectRead requestId error =>
      obtain ⟨pending, replies, heq⟩ := n.answerRead_frame requestId fun _ => .error error
      rw [runStoreTask, rejectRead, heq]
      exact ⟨⟨_, _, _, _, _, _, _, _, _, _⟩, rfl⟩
  | completeRead requestId =>
      obtain ⟨pending, replies, heq⟩ :=
        n.answerRead_frame requestId fun pending => .value (n.store.get pending.key)
      rw [runStoreTask, completeRead, heq]
      exact ⟨⟨_, _, _, _, _, _, _, _, _, _⟩, rfl⟩
  | capture => exact ⟨⟨_, _, _, _, _, _, _, _, _, _⟩, rfl⟩
  | restore index state =>
      rw [runStoreTask]
      split <;> exact ⟨⟨_, _, _, _, _, _, _, _, _, _⟩, rfl⟩
  | stop => exact ⟨⟨_, _, _, _, _, _, _, _, _, _⟩, rfl⟩

end

/-! ## Which answers are given -/

theorem answerWrite_replies {requestId callback : Nat} {answer given : Reply}
    (hreply : (callback, given) ∈ (n.answerWrite requestId answer).replies) :
    (callback, given) ∈ n.replies ∨
      n.pendingWrites.get? requestId = some callback ∧ given = answer := by
  unfold answerWrite at hreply
  split at hreply
  · exact .inl hreply
  next found hget =>
    refine (List.mem_append.mp hreply).imp_right fun h => ?_
    obtain ⟨rfl, rfl⟩ := Prod.mk.inj (List.mem_singleton.mp h)
    exact ⟨hget, rfl⟩

theorem answerRead_replies {requestId callback : Nat} {answer : PendingRead → Reply}
    {given : Reply} (hreply : (callback, given) ∈ (n.answerRead requestId answer).replies) :
    (callback, given) ∈ n.replies ∨ ∃ pending, n.pendingReads.get? requestId = some pending ∧
      callback = pending.reply ∧ given = answer pending := by
  unfold answerRead at hreply
  split at hreply
  · exact .inl hreply
  next found hget =>
    refine (List.mem_append.mp hreply).imp_right fun h => ?_
    obtain ⟨rfl, rfl⟩ := Prod.mk.inj (List.mem_singleton.mp h)
    exact ⟨found, hget, rfl, rfl⟩

theorem expireClientRequests_replies {writes reads : List Nat} {callback : Nat} {given : Reply}
    (hreply : (callback, given) ∈ (n.expireClientRequests writes reads).replies) :
    (callback, given) ∈ n.replies ∨ given = .error .outcomeUnknown ∨
      given = .error .quorumUnavailable := by
  have hfold : ∀ {f : Runtime D → Nat → Runtime D} {error : Refusal},
      (∀ n id, (callback, given) ∈ (f n id).replies →
        (callback, given) ∈ n.replies ∨ given = .error error) →
      ∀ (ids : List Nat) (n : Runtime D), (callback, given) ∈ (ids.foldl f n).replies →
        (callback, given) ∈ n.replies ∨ given = .error error := by
    intro f error hf ids
    induction ids with
    | nil => exact fun n h => .inl h
    | cons id ids ih => exact fun n h => (ih _ h).elim (hf n id) .inr
  have hwrite : ∀ (n : Runtime D) id,
      (callback, given) ∈ (n.rejectWrite id .outcomeUnknown).replies →
      (callback, given) ∈ n.replies ∨ given = .error .outcomeUnknown := fun n id h =>
    (answerWrite_replies h).imp_right And.right
  have hread : ∀ (n : Runtime D) id, (callback, given) ∈
      ((n.rejectRead id .quorumUnavailable).postRaft (.cancelRead id)).replies →
      (callback, given) ∈ n.replies ∨ given = .error .quorumUnavailable := by
    intro n id h
    refine (answerRead_replies h).imp_right ?_
    rintro ⟨pending, -, -, hgiven⟩
    exact hgiven
  unfold expireClientRequests at hreply
  rcases hfold hread _ _ hreply with hmid | herror
  · exact (hfold hwrite _ _ hmid).imp_right .inl
  · exact .inr (.inr herror)

variable [Blob D] {codec : StoreCodec D}

/-- The answers to a write that was applied. -/
def Success : Reply → Prop
  | .ok | .affected _ => True
  | _ => False

/-- The ways in which an event invokes a callback. -/
inductive Answers (codec : StoreCodec D) (n : Runtime D) (event : Event D) (next : Runtime D) :
    Nat → Reply → Prop
  | applied (entry : Entry) (rest : List (StoreTask D)) (command : Command) (callback : Nat)
      (answer : Reply) (hevent : event = .store) (hqueue : n.storeTasks = .apply entry :: rest)
      (hrunning : n.stopping = false) (hcarries : KVStore.Carries entry)
      (hunpack : codec.unpackCommand entry.data = some command)
      (horigin : command.originNode = n.config.id)
      (hpending : n.pendingWrites.get? command.requestId = some callback)
      (hprocessed : next.processed = n.processed ++ [entry])
      (happlied : next.storeAppliedIndex = entry.index) (hanswer : Success answer) :
      Answers codec n event next callback answer
  | refused (requestId : Nat) (error : Refusal) (rest : List (StoreTask D)) (callback : Nat)
      (hqueue : n.storeTasks = .rejectWrite requestId error :: rest)
      (hpending : n.pendingWrites.get? requestId = some callback) :
      Answers codec n event next callback (.error error)
  | read (requestId : Nat) (pending : PendingRead) (answer : Reply)
      (hpending : n.pendingReads.get? requestId = some pending)
      (hanswer : (∃ error, answer = .error error) ∨ ∃ rest, event = .store ∧
        n.storeTasks = .completeRead requestId :: rest ∧
          answer = .value (n.store.get pending.key)) :
      Answers codec n event next pending.reply answer
  | givenUp (callback : Nat) (error : Refusal)
      (herror : error = .outcomeUnknown ∨ error = .quorumUnavailable ∨ error = .stopping) :
      Answers codec n event next callback (.error error)

theorem applyCommittedEntry_answers {entry : Entry} {rest : List (StoreTask D)} {callback : Nat}
    {given : Reply} (hqueue : n.storeTasks = .apply entry :: rest)
    (hreply : (callback, given) ∈
      ({ n with storeTasks := rest }.applyCommittedEntry codec entry).replies) :
    (callback, given) ∈ n.replies ∨ Answers codec n .store
      ({ n with storeTasks := rest }.applyCommittedEntry codec entry) callback given := by
  have hstop : ∀ reason, (callback, given) ∈
      (requestStop { n with storeTasks := rest } reason).replies →
      (callback, given) ∈ n.replies := by
    intro reason h
    obtain ⟨ended, -, heq⟩ := requestStop_frame { n with storeTasks := rest } reason
    rwa [heq] at h
  rw [applyCommittedEntry] at hreply ⊢
  split at hreply
  · exact .inl hreply
  next hrunning =>
    rw [if_neg hrunning]
    split at hreply
    · exact .inl hreply
    next hnew =>
      rw [if_neg hnew]
      split at hreply
      · exact .inl (hstop _ hreply)
      next hgap =>
        rw [if_neg hgap]
        split at hreply
        next hcarries =>
          rw [if_pos hcarries]
          split at hreply
          · exact .inl (hstop _ hreply)
          next store result happly =>
            dsimp only at hreply ⊢
            split at hreply
            next horigin =>
              rw [if_pos horigin]
              have hresult : ∃ command, codec.unpackCommand entry.data = some command ∧
                  command.originNode = result.originNode ∧
                  command.requestId = result.requestId := by
                unfold KVStore.apply at happly
                obtain ⟨command, hunpack, hrest⟩ := Option.bind_eq_some_iff.mp happly
                obtain ⟨⟨store', affected⟩, -, hdone⟩ := Option.bind_eq_some_iff.mp hrest
                obtain ⟨-, rfl⟩ := Prod.mk.inj (Option.some.inj hdone)
                exact ⟨command, hunpack, rfl, rfl⟩
              obtain ⟨command, hunpack, hnode, hid⟩ := hresult
              have hprocessed : (completeWrite { n with storeTasks := rest, store := store }
                  result).processed = n.processed := by
                obtain ⟨pending, replies, heq⟩ := answerWrite_frame
                  { n with storeTasks := rest, store := store } result.requestId
                  (if result.type = .set then .ok else .affected result.affected)
                rw [completeWrite, heq]
              refine (answerWrite_replies hreply).imp_right ?_
              rintro ⟨hpending, rfl⟩
              refine .applied entry rest command callback _ rfl hqueue (by simpa using hrunning)
                hcarries hunpack (hnode.trans horigin) (hid ▸ hpending) ?_ rfl ?_
              · exact congrArg (· ++ [entry]) hprocessed
              · split <;> trivial
            · exact .inl hreply
        · exact .inl hreply

theorem runStoreTask_answers {task : StoreTask D} {rest : List (StoreTask D)} {callback : Nat}
    {given : Reply} (hqueue : n.storeTasks = task :: rest)
    (hreply : (callback, given) ∈ ({ n with storeTasks := rest }.runStoreTask codec task).replies) :
    (callback, given) ∈ n.replies ∨ Answers codec n .store
      ({ n with storeTasks := rest }.runStoreTask codec task) callback given := by
  cases task with
  | apply entry => exact applyCommittedEntry_answers hqueue hreply
  | rejectWrite requestId error =>
      refine (answerWrite_replies hreply).imp_right ?_
      rintro ⟨hpending, rfl⟩
      exact .refused requestId error rest callback hqueue hpending
  | rejectRead requestId error =>
      refine (answerRead_replies hreply).imp_right ?_
      rintro ⟨pending, hpending, rfl, rfl⟩
      exact .read requestId pending _ hpending (.inl ⟨error, rfl⟩)
  | completeRead requestId =>
      refine (answerRead_replies hreply).imp_right ?_
      rintro ⟨pending, hpending, rfl, rfl⟩
      exact .read requestId pending _ hpending (.inr ⟨rest, rfl, hqueue, rfl⟩)
  | capture => exact .inl hreply
  | restore index state =>
      rw [runStoreTask] at hreply
      split at hreply <;> exact .inl hreply
  | stop =>
      simp only [runStoreTask, stopClients, List.append_assoc, List.mem_append,
        List.mem_map] at hreply
      rcases hreply with hold | ⟨_, -, heq⟩ | ⟨_, -, heq⟩
      · exact .inl hold
      · obtain ⟨-, rfl⟩ := Prod.mk.inj heq
        exact .inr (.givenUp callback _ (.inr (.inr rfl)))
      · obtain ⟨-, rfl⟩ := Prod.mk.inj heq
        exact .inr (.givenUp callback _ (.inr (.inr rfl)))

theorem Happens.answers {event : Event D} {result : Runtime D × List (Message D)} {callback : Nat}
    {given : Reply} (hsettled : ReadsSettled n) (hhappens : Happens codec n event result)
    (hreply : (callback, given) ∈ result.1.replies) :
    (callback, given) ∈ n.replies ∨ Answers codec n event result.1 callback given := by
  have hloop : OnRaftLoop event → (callback, given) ∈ n.replies := by
    intro h
    have hclients := hhappens.clients_eq hsettled h
    simp only [clients, Prod.mk.injEq] at hclients
    rwa [hclients.2.2.2.2] at hreply
  cases hhappens with
  | receive msg => exact .inl hreply
  | store task rest hqueue => exact runStoreTask_answers hqueue hreply
  | write type strs =>
      rw [beginWrite_frame] at hreply
      exact .inl hreply
  | read key =>
      rw [beginRead_frame] at hreply
      exact .inl hreply
  | expire writes reads =>
      rcases expireClientRequests_replies hreply with hold | rfl | rfl
      · exact .inl hold
      · exact .inr (.givenUp callback _ (.inl rfl))
      · exact .inr (.givenUp callback _ (.inr (.inl rfl)))
  | signal =>
      obtain ⟨ended, -, heq⟩ := n.stopOnce_frame
      rw [heq] at hreply
      exact .inl hreply
  | _ => exact .inl (hloop trivial)

end RaftKv.Runtime
