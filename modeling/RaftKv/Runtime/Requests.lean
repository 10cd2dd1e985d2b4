import RaftKv.Runtime.Callbacks

/-! # Request numbers

The store loop numbers the requests of its clients, reads and writes alike. The counter
skips zero and comes round after 2^64 - 1 requests; until then no number is given twice.
-/

namespace RaftKv.Runtime

variable {D : Type} {n m next : Runtime D}

/-- The number a request was given. -/
def number : Request → Nat
  | .write command => command.requestId
  | .read requestId _ => requestId

/-- The number of the `k`-th request of a process whose first one gets `first`. -/
def numberOf (first k : Nat) : Nat := (first - 1 + k) % (2 ^ 64 - 1) + 1

structure Numbered (first : Nat) (n : Runtime D) : Prop where
  given : ∀ k request, n.requests[k]? = some request → number request = numberOf first k
  next : n.allocateRequestId.2 = numberOf first n.requests.length

theorem allocateRequestId_next (n : Runtime D) {first k : Nat}
    (hid : n.allocateRequestId.2 = numberOf first k) :
    n.allocateRequestId.1.allocateRequestId.2 = numberOf first (k + 1) := by
  have hsucc : ∀ id, id = numberOf first k →
      (if wrap64 (id + 1) = 0 then 1 else wrap64 (id + 1)) = numberOf first (k + 1) := by
    rintro id rfl
    have hlt : (first - 1 + k) % (2 ^ 64 - 1) < 2 ^ 64 - 1 := Nat.mod_lt _ (by decide)
    have hadd : (first - 1 + (k + 1)) % (2 ^ 64 - 1) =
        ((first - 1 + k) % (2 ^ 64 - 1) + 1) % (2 ^ 64 - 1) := by
      rw [← Nat.add_assoc, Nat.mod_add_mod]
    unfold numberOf wrap64
    rw [hadd]
    generalize (first - 1 + k) % (2 ^ 64 - 1) = x at *
    by_cases hlast : x + 1 = 2 ^ 64 - 1
    · rw [if_pos (by omega)]
      omega
    · rw [if_neg (by omega)]
      omega
  have hpos : numberOf first (k + 1) ≠ 0 := by simp [numberOf]
  unfold allocateRequestId at hid ⊢
  dsimp only at hid ⊢
  split at hid
  next hzero =>
    have hone := hsucc 1 hid
    rw [if_pos hzero]
    exact hone
  next hzero =>
    rw [if_neg hzero]
    have hnext := hsucc _ hid
    rw [if_neg (by rw [hnext]; exact hpos)]
    exact hnext

theorem Numbered.request {first : Nat} (hnumbered : Numbered first n) {request : Request}
    (hrequests : m.requests = n.requests ++ [request])
    (hnumber : number request = n.allocateRequestId.2)
    (hnext : m.nextRequestId = n.allocateRequestId.1.nextRequestId) : Numbered first m := by
  constructor
  · intro k old hget
    rw [hrequests] at hget
    rcases Nat.lt_trichotomy k n.requests.length with hk | rfl | hk
    · rw [List.getElem?_append_left hk] at hget
      exact hnumbered.given k old hget
    · rw [List.getElem?_concat_length] at hget
      rw [← Option.some.inj hget, hnumber, hnumbered.next]
    · rw [List.getElem?_eq_none (by simp; omega)] at hget
      cases hget
  · have hsame : m.allocateRequestId.2 = n.allocateRequestId.1.allocateRequestId.2 := by
      unfold allocateRequestId at hnext ⊢
      dsimp only at hnext ⊢
      rw [hnext]
      split <;> split <;> rfl
    rw [hsame, hrequests, List.length_append]
    exact allocateRequestId_next n hnumbered.next

theorem Numbered.congr {first : Nat} (hnumbered : Numbered first n)
    (hrequests : m.requests = n.requests) (hnext : m.nextRequestId = n.nextRequestId) :
    Numbered first m := by
  have hsame : m.allocateRequestId.2 = n.allocateRequestId.2 := by
    unfold allocateRequestId
    rw [hnext]
    split <;> rfl
  exact ⟨hrequests ▸ hnumbered.given, hsame ▸ hrequests ▸ hnumbered.next⟩

/-- Before the counter has come round, no number is given twice. -/
theorem Numbered.fresh {first : Nat} (hnumbered : Numbered first n)
    (hfew : n.requests.length + 1 < 2 ^ 64) {request : Request} (hrequest : request ∈ n.requests) :
    number request ≠ n.allocateRequestId.2 := by
  obtain ⟨k, hk⟩ := List.mem_iff_getElem?.mp hrequest
  have hlt := (List.getElem?_eq_some_iff.mp hk).1
  rw [hnumbered.given k request hk, hnumbered.next]
  unfold numberOf
  omega

/-- What an event does to the requests. -/
inductive Requested (n : Runtime D) (event : Event D) (next : Runtime D) : Prop
  | nothing (hrequests : next.requests = n.requests)
      (hnext : next.nextRequestId = n.nextRequestId)
      (hwrite : ∀ type strs, event ≠ .write type strs)
  | write (type : CommandType) (strs : List Bytes) (hevent : event = .write type strs)
      (hrequests : next.requests =
        n.requests ++ [.write ⟨type, strs, n.config.id, n.allocateRequestId.2⟩])
      (hnext : next.nextRequestId = n.allocateRequestId.1.nextRequestId)
  | read (key : Bytes) (hevent : event = .read key)
      (hrequests : next.requests = n.requests ++ [.read n.allocateRequestId.2 key])
      (hnext : next.nextRequestId = n.allocateRequestId.1.nextRequestId)

/-- A request keeps its position, which is its callback. -/
theorem Requested.keeps {event : Event D} (hrequested : Requested n event next) {k : Nat}
    {request : Request} (hget : n.requests[k]? = some request) :
    next.requests[k]? = some request := by
  have hlt := (List.getElem?_eq_some_iff.mp hget).1
  cases hrequested with
  | nothing hrequests => rw [hrequests, hget]
  | write _ _ _ hrequests => rw [hrequests, List.getElem?_append_left hlt, hget]
  | read _ _ hrequests => rw [hrequests, List.getElem?_append_left hlt, hget]

theorem Requested.numbered {event : Event D} {first : Nat} (hrequested : Requested n event next)
    (hnumbered : Numbered first n) : Numbered first next := by
  cases hrequested with
  | nothing hrequests hnext => exact hnumbered.congr hrequests hnext
  | write type strs hevent hrequests hnext => exact hnumbered.request hrequests rfl hnext
  | read key hevent hrequests hnext => exact hnumbered.request hrequests rfl hnext

variable [Blob D] {codec : StoreCodec D}

theorem Happens.requested {event : Event D} {result : Runtime D × List (Message D)}
    (hsettled : ReadsSettled n) (hhappens : Happens codec n event result) :
    Requested n event result.1 := by
  have hloop : OnRaftLoop event → (∀ type strs, event ≠ .write type strs) →
      Requested n event result.1 := by
    intro h hwrite
    have hclients := hhappens.clients_eq hsettled h
    simp only [clients, Prod.mk.injEq] at hclients
    exact .nothing hclients.2.2.2.1 hclients.2.2.1 hwrite
  cases hhappens with
  | receive msg => exact .nothing rfl rfl fun _ _ h => by cases h
  | store task rest hqueue =>
      obtain ⟨fields, heq⟩ :=
        runStoreTask_frame codec { n with storeTasks := rest } task
      rw [heq]
      exact .nothing rfl rfl fun _ _ h => by cases h
  | write type strs =>
      refine .write type strs rfl ?_ ?_ <;> rw [beginWrite_frame]
  | read key =>
      refine .read key rfl ?_ ?_ <;> rw [beginRead_frame]
  | expire writes reads =>
      obtain ⟨fields, heq⟩ := n.expireClientRequests_frame writes reads
      rw [heq]
      exact .nothing rfl rfl fun _ _ h => by cases h
  | signal =>
      obtain ⟨ended, -, heq⟩ := n.stopOnce_frame
      rw [heq]
      exact .nothing rfl rfl fun _ _ h => by cases h
  | _ => exact hloop trivial fun _ _ h => by cases h

/-- A process numbers its requests from the value it starts with, zero apart. -/
theorem new_numbered {config : Config} {draws : List Nat} {requestId : UInt64}
    {file : List (Record D)} (hnew : new codec config draws requestId.toNat file = some n) :
    ∃ first, Numbered first n := by
  have hclients := new_clients hnew
  simp only [clients, Prod.mk.injEq] at hclients
  obtain ⟨-, -, hnext, hrequests, -⟩ := hclients
  have hlt : requestId.toNat < 2 ^ 64 := requestId.toNat_lt
  refine ⟨if requestId.toNat = 0 then 1 else requestId.toNat, ?_, ?_⟩
  · simp [hrequests]
  · rw [hrequests]
    unfold allocateRequestId numberOf
    rw [hnext]
    dsimp only [List.length_nil]
    split
    · rfl
    · dsimp only
      omega

end RaftKv.Runtime
