import QueuedFiles.Proofs.Ownership
import QueuedFiles.Proofs.Service.Buffers

/-!
Who holds what. Each buffer is with a request, wherever that is, in an outcome that was left, or with
a caller that has taken it; each room is with the codec worker. A move passes holdings on, and the
heaps count them before and after it.
-/

namespace QueuedFiles

def Worker.holdings : Worker → List Reservation
  | .serving r | .routing r _ => r.holdings
  | .coding r room => room.toList ++ r.holdings
  | .idle | .signaling _ | .releasing _ | .leaving | .gone => []

def Ticket.holdings (t : Ticket) : List Reservation := (t.buffer.map Buffer.holding).toList

theorem Ticket.holdings_withoutBuffer (t : Ticket) : t.withoutBuffer.holdings = [] := by
  cases ho : t.outcome <;> simp [holdings, withoutBuffer, look, buffer, ho]

theorem Ticket.holdings_look (t : Ticket) (q : Question) (x : Reservation) :
    ((t.look q).1.buffer?.toList.map Buffer.holding).count x + (t.look q).2.holdings.count x =
      t.holdings.count x := by
  cases q with
  | buffer =>
    have hn := t.holdings_withoutBuffer
    rw [withoutBuffer] at hn
    rw [hn]
    change (t.buffer.toList.map Buffer.holding).count x + 0 = t.holdings.count x
    cases hb : t.buffer <;> simp [holdings, hb]
  | result | code | size => simp [look, Answer.buffer?]

theorem Ticket.holdings_release (t : Ticket) (x : Reservation) :
    (((if t.held then none else t.buffer).map Buffer.holding).toList).count x +
      t.release.holdings.count x = t.holdings.count x := by
  unfold release
  dsimp only
  split
  · simp [holdings, buffer]
  · rw [holdings_withoutBuffer]
    exact Nat.add_zero _

theorem Ticket.holdings_forget (t : Ticket) (x : Reservation) :
    (((if t.released then t.buffer else none).map Buffer.holding).toList).count x +
      t.forget.holdings.count x = t.holdings.count x := by
  unfold forget
  dsimp only
  split
  · rw [holdings_withoutBuffer]
    exact Nat.add_zero _
  · simp [holdings, buffer]

/-- All holdings of a service and its callers: in pushes that have not come back, in both queues, in
the hands of both workers, in outcomes, and taken. -/
def Service.holdings {fs : FileSystem} {codec : Codec} (s : Service fs codec) : List Reservation :=
  s.entering.flatMap Request.holdings ++ (s.queue .file).payloads.flatMap Request.holdings ++
    (s.queue .codec).payloads.flatMap Request.holdings ++ (s.worker .file).holdings ++
    (s.worker .codec).holdings ++ s.tickets.flatMap Ticket.holdings ++ s.taken.map Buffer.holding

/-- A request that gets another buffer for its own: the old one is given up behind the new one. -/
theorem Heaps.Owns.replace {heaps : Heaps} {r : Request} {l : List Reservation} {x : Reservation}
    (ho : heaps.Owns (x :: (r.holdings ++ l))) : (heaps.releaseOption r.buffer).Owns (x :: l) :=
  Heaps.Owns.releaseOption (ho.perm List.perm_middle.symm)

namespace FileStage

variable {fs : FileSystem} {files : fs.State} {heaps : Heaps} {r : Request} {l : List Reservation}

theorem read_owns (hh : heaps.has r.heap = true) (ho : heaps.Owns (r.holdings ++ l)) :
    (read fs files heaps r).1.heaps.Owns ((read fs files heaps r).1.request.holdings ++ l) := by
  simp only [read]
  repeat' split
  all_goals first
    | exact ho
    | exact (ho.reserve hh _).cancel
    | exact ((ho.reserve hh _).fill _).replace

theorem write_owns (ho : heaps.Owns (r.holdings ++ l)) :
    (write fs files heaps r).1.heaps.Owns ((write fs files heaps r).1.request.holdings ++ l) := by
  obtain ⟨hheaps, hbuffer⟩ := write_frame files heaps r
  rwa [Request.holdings, hheaps, hbuffer]

theorem run_owns (hh : heaps.has r.heap = true) (ho : heaps.Owns (r.holdings ++ l)) :
    (run fs files heaps r).1.heaps.Owns ((run fs files heaps r).1.request.holdings ++ l) := by
  unfold run
  split
  · exact read_owns hh ho
  · exact write_owns ho

end FileStage

namespace CodecStage

variable {heaps : Heaps} {r : Request} {l : List Reservation}

theorem overflow_owns (max : Nat) (hh : heaps.has r.heap = true)
    (ho : heaps.Owns (r.holdings ++ l)) :
    (overflow max heaps r).heaps.Owns ((overflow max heaps r).request.holdings ++ l) :=
  (ho.adopt hh _).replace

theorem compressed_owns (block : Except BlockError Bytes) (hh : heaps.has r.heap = true)
    (ho : heaps.Owns (r.holdings ++ l)) :
    (compressed heaps r block).heaps.Owns ((compressed heaps r block).request.holdings ++ l) := by
  cases block with
  | ok bytes => exact (ho.adopt hh bytes).replace
  | error e => exact (ho.adopt hh _).replace

theorem decompressed_owns (max : Nat) (room : Reservation) (written : Bytes)
    (reported : Except BlockError Nat) (ho : heaps.Owns (room :: (r.holdings ++ l))) :
    (decompressed max heaps r room written reported).heaps.Owns
      ((decompressed max heaps r room written reported).request.holdings ++ l) :=
  (ho.fill _).replace

end CodecStage

theorem Order.draw_owns {heaps : Heaps} {own : HeapId} {l : List Reservation} (o : Order)
    (hh : heaps.has own = true) (ho : heaps.Owns l) :
    (o.draw own heaps).2.Owns (((o.draw own heaps).1.map Buffer.holding).toList ++ l) := by
  cases o with
  | read => exact ho
  | write _ bytes => exact ho.adopt hh bytes

theorem Staged.holdings_routed (staged : Staged) (lane : Lane) :
    (staged.routed lane).holdings = staged.request.holdings := by
  simp [Request.holdings]

namespace Service

variable {fs : FileSystem} {codec : Codec} {s t : Service fs codec} {log more : List Incident}
  {lane : Lane} {r : Request} {p : Post} {config : Config} {heap : HeapId} {heaps : Heaps}
  {files : fs.State} {codecState : codec.State} {staged : Staged} {a : Telemetry.Activity}
  {added : Option Telemetry.Addition} {l others : List Reservation}

theorem StageEnd.owns (h : s.StageEnd lane r staged a added files codecState)
    (hh : s.heaps.has r.heap = true) (ho : s.heaps.Owns ((s.worker lane).holdings ++ l)) :
    staged.heaps.Owns (staged.request.holdings ++ l) := by
  cases h with
  | @file r staged files hw hs =>
    rw [hw] at ho
    have hrun := @FileStage.run_owns fs s.files s.heaps r l hh ho
    rwa [hs] at hrun
  | overflow hw =>
    rw [hw] at ho
    exact CodecStage.overflow_owns _ hh ho
  | compress hw =>
    rw [hw] at ho
    exact CodecStage.compressed_owns _ hh ho
  | decompress hw =>
    rw [hw] at ho
    exact CodecStage.decompressed_owns _ _ _ _ ho

theorem Prepared.owns {room : Option Reservation} {heaps : Heaps} (h : s.Prepared r room heaps)
    (hh : s.heaps.has r.heap = true) (ho : s.heaps.Owns ((s.worker .codec).holdings ++ l)) :
    heaps.Owns ((Worker.coding r room).holdings ++ l) := by
  cases h with
  | write hw =>
    rw [hw] at ho
    exact ho
  | read hw =>
    rw [hw] at ho
    exact ho.reserve hh _

theorem holdings_perm (s : Service fs codec) (lane : Lane) :
    (s.holdings ++ others).Perm
      ((s.worker lane).holdings ++ ((s.setWorker lane .gone).holdings ++ others)) := by
  refine List.perm_iff_count.2 fun x ↦ ?_
  cases lane
  all_goals simp [holdings, Worker.holdings]
  all_goals omega

/-! What is out of the heaps besides the holdings of the service is not touched. -/

/-- A move that leaves the heaps alone passes holdings on. -/
theorem moved (ho : s.heaps.Owns (s.holdings ++ others)) (hheaps : t.heaps = s.heaps)
    (hc : ∀ x, t.holdings.count x = s.holdings.count x) : t.heaps.Owns (t.holdings ++ others) := by
  rw [hheaps]
  exact ho.perm ((List.perm_iff_count.2 fun x ↦ (hc x).symm).append_right others)

/-- A move that gives up a buffer passes the other holdings on. -/
theorem given {b : Option Buffer} (ho : s.heaps.Owns (s.holdings ++ others))
    (hheaps : t.heaps = s.heaps.releaseOption b)
    (hc : ∀ x, (b.map Buffer.holding).toList.count x + t.holdings.count x = s.holdings.count x) :
    t.heaps.Owns (t.holdings ++ others) := by
  rw [hheaps]
  refine Heaps.Owns.releaseOption (ho.perm (List.perm_iff_count.2 fun x ↦ ?_))
  simp only [List.count_append, ← hc, Nat.add_assoc]

theorem ticket_mem {id : Nat} {k : Ticket} (h : s.ticket? id = some k) : k ∈ s.tickets ∧ k.id = id :=
  ⟨List.mem_of_find?_eq_some h, by simpa using List.find?_some h⟩

theorem count_updateAll {ts : List Ticket} {k : Ticket} (hn : (ts.map (·.id)).Nodup) (hk : k ∈ ts)
    (f : Ticket → Ticket) (x : Reservation) :
    ((Ticket.updateAll ts k.id f).flatMap Ticket.holdings).count x + k.holdings.count x =
      (ts.flatMap Ticket.holdings).count x + (f k).holdings.count x := by
  have hold := ((perm_cons_filter_key Ticket.id hn hk).flatMap_right Ticket.holdings).count_eq x
  have hnew := ((map_perm_cons_filter_key Ticket.id f hn hk).flatMap_right
    Ticket.holdings).count_eq x
  rw [List.flatMap_cons, List.count_append] at hold hnew
  rw [Ticket.updateAll]
  omega

theorem updateAll_of_none {id : Nat} (h : s.ticket? id = none) (f : Ticket → Ticket) :
    Ticket.updateAll s.tickets id f = s.tickets := by
  refine map_of_key_ne Ticket.id fun k hk ↦ ?_
  simpa using List.find?_eq_none.1 h k hk

theorem updateAll_holdings {f : Ticket → Ticket} (hf : ∀ k, (f k).holdings = k.holdings)
    (ts : List Ticket) (id : Nat) :
    (Ticket.updateAll ts id f).flatMap Ticket.holdings = ts.flatMap Ticket.holdings := by
  rw [Ticket.updateAll, List.flatMap_map]
  refine congrArg (fun g ↦ ts.flatMap g) (funext fun k ↦ ?_)
  split
  · exact hf k
  · rfl

theorem flatMap_filter_of_nil {α β : Type} {l : List α} {keep : α → Bool} {f : α → List β}
    (h : ∀ a ∈ l, keep a = false → f a = []) : (l.filter keep).flatMap f = l.flatMap f := by
  induction l with
  | nil => rfl
  | cons a l ih =>
    have hl := ih fun b hb ↦ h b (List.mem_cons_of_mem a hb)
    cases ha : keep a with
    | true => rw [List.filter_cons_of_pos ha, List.flatMap_cons, List.flatMap_cons, hl]
    | false =>
      rw [List.filter_cons_of_neg (by simp [ha]), List.flatMap_cons, hl,
        h a (List.mem_cons_self ..) ha, List.nil_append]

/-- There is nothing in the ticket of a request that is still on its way. -/
theorem Run.empty_ticket (h : Run (fresh config heap heaps files codecState) log s) (hr : s.At r p)
    {k : Ticket} (hk : k ∈ s.tickets) (he : k.id = r.id) : k.holdings = [] := by
  cases hout : k.outcome with
  | none => simp [Ticket.holdings, Ticket.buffer, hout]
  | some left =>
    obtain ⟨o, hpub, -⟩ := (h.desk.reflects k hk).filled left hout
    rw [he] at hpub
    have hmem : r.id ∈ log.filterMap Incident.published? := List.mem_filterMap.2 ⟨_, hpub, rfl⟩
    exact absurd hmem (h.census.over hr).1

/-- What the ticket of some number gives up, and what all tickets have then. -/
theorem count_given (hn : (s.tickets.map (·.id)).Nodup) (id : Nat) {f : Ticket → Ticket}
    {left : Ticket → Option Buffer}
    (hf : ∀ k x, ((left k).map Buffer.holding).toList.count x + (f k).holdings.count x =
      k.holdings.count x) (x : Reservation) :
    (((s.ticket? id).bind left).map Buffer.holding).toList.count x +
        ((Ticket.updateAll s.tickets id f).flatMap Ticket.holdings).count x =
      (s.tickets.flatMap Ticket.holdings).count x := by
  cases hid : s.ticket? id with
  | none => simp [updateAll_of_none hid]
  | some k =>
    obtain ⟨hk, rfl⟩ := ticket_mem hid
    have hold := count_updateAll hn hk f x
    have hgiven := hf k x
    rw [Option.bind_some]
    omega

theorem Run.count_entering (h : Run (fresh config heap heaps files codecState) log s)
    (hr : r ∈ s.entering) (x : Reservation) :
    (s.entering.flatMap Request.holdings).count x = r.holdings.count x +
      ((s.entering.filter fun q ↦ q.id ≠ r.id).flatMap Request.holdings).count x := by
  have hperm := perm_cons_filter_key Request.id h.census.nodup_entering hr
  rw [(hperm.flatMap_right Request.holdings).count_eq x, List.flatMap_cons, List.count_append]

theorem Run.refused_tickets (h : Run (fresh config heap heaps files codecState) log s)
    (hr : r ∈ s.entering) :
    (s.tickets.filter fun k ↦ k.id ≠ r.id).flatMap Ticket.holdings =
      s.tickets.flatMap Ticket.holdings := by
  refine flatMap_filter_of_nil ?_
  intro k hk hid
  have hat : s.At r .caller := hr
  exact h.empty_ticket hat hk (by simpa using hid)

/-- The ticket that the outcome of a request goes into is there, and empty. -/
theorem Run.count_published (h : Run (fresh config heap heaps files codecState) log s)
    (hw : s.worker lane = .routing r .complete) (x : Reservation) :
    ((Ticket.updateAll s.tickets r.id (·.publish r.completed.outcome)).flatMap
        Ticket.holdings).count x =
      (s.tickets.flatMap Ticket.holdings).count x + r.holdings.count x := by
  have hat : s.At r (.hand lane (.routing .complete)) := hw
  have hpos := h.census.accepted_of_held (hat.held_pos rfl)
  obtain ⟨q, hq, hacc⟩ := mem_accepted.1 (List.count_pos_iff.1 hpos)
  obtain ⟨k, hf, hid, -⟩ := h.ticket_of_accepted hacc
  obtain ⟨hk, -⟩ := ticket_mem hf
  have hkr : k.id = r.id := hid.trans hq
  have hx := count_updateAll (h.desk.nodup h.census) hk (·.publish r.completed.outcome) x
  rw [h.empty_ticket hat hk hkr, hkr, List.count_nil, Nat.add_zero] at hx
  rw [hx]
  rfl

theorem nodup_taken (ho : s.heaps.Owns (s.holdings ++ others)) :
    (s.taken.map Buffer.key).Nodup := by
  have hn := ho.nodup_keys
  rw [List.map_append, holdings, List.map_append] at hn
  have hn' := (List.nodup_append.1 (List.nodup_append.1 hn).1).2.1
  rwa [List.map_map] at hn'

attribute [local simp] Message.payload?

/-! The heaps behind the three moves of a worker in which buffers come and go. -/

theorem Run.owns_prepared (h : Run (fresh config heap heaps files codecState) log s)
    (hheap : heaps.has heap = true) {room : Option Reservation} {after : Heaps}
    (hp : s.Prepared r room after) (ho : s.heaps.Owns (s.holdings ++ others)) :
    after.Owns ((({ s with heaps := after } : Service fs codec).setWorker .codec
      (.coding r room)).holdings ++ others) := by
  have hat : s.At r (.hand .codec .serving) := hp.holds
  refine (hp.owns (h.has_heap hheap hat) (ho.perm (s.holdings_perm .codec))).perm ?_
  refine List.perm_iff_count.2 fun x ↦ ?_
  simp [holdings, Worker.holdings]
  omega

theorem Run.owns_staged (h : Run (fresh config heap heaps files codecState) log s)
    (hheap : heaps.has heap = true) {after : fs.State} {state : codec.State}
    (he : s.StageEnd lane r staged a added after state) (ho : s.heaps.Owns (s.holdings ++ others))
    (w : Worker) (hw : w.holdings = staged.request.holdings) :
    staged.heaps.Owns ((s.setWorker lane w).holdings ++ others) := by
  obtain ⟨task, hat⟩ := he.task
  have hhas := h.has_heap hheap (show s.At r (.hand lane task) from hat)
  have hgone : Worker.gone.holdings = [] := rfl
  refine (he.owns hhas (ho.perm (s.holdings_perm lane))).perm (List.perm_iff_count.2 fun x ↦ ?_)
  cases lane
  all_goals simp [holdings, hw, hgone]
  all_goals omega

/-- The buffer of a request that is lost with its worker goes back, and so does the room for it. -/
theorem owns_crashed {room : Option Reservation} (hw : s.worker .codec = .coding r room)
    (ho : s.heaps.Owns (s.holdings ++ others)) :
    ((room.elim s.heaps s.heaps.cancel).releaseOption r.buffer).Owns
      ((s.setWorker .codec .gone).holdings ++ others) := by
  have howns := ho.perm (s.holdings_perm .codec)
  rw [hw, Worker.holdings] at howns
  apply Heaps.Owns.releaseOption
  cases room with
  | none => exact howns
  | some room => exact howns.cancel

theorem Run.keeps_books (h : Run (fresh config heap heaps files codecState) log s)
    (hheap : heaps.has heap = true) (ht : Transition s more t)
    (ho : s.heaps.Owns (s.holdings ++ others)) : t.heaps.Owns (t.holdings ++ others) := by
  have hown : s.heaps.has s.heap = true := by
    rw [h.frame.2]
    exact h.onward.has hheap
  cases ht with
  | newHeap name => exact ho.create name
  | turnedAway o => exact Heaps.Owns.releaseOption (o.draw_owns hown ho)
  | entered o path hc ha hp =>
    refine (o.draw_owns hown ho).perm ?_
    rw [List.perm_iff_count]
    intro x
    simp [holdings, Request.holdings, Ticket.holdings, Order.request, Ticket.ofRequest, Ticket.buffer]
    omega
  | accepted r lane hr hl hopen =>
    refine moved ho (by simp) fun x ↦ ?_
    have hx := h.count_entering hr x
    cases lane <;> simp [holdings] at hx ⊢ <;> omega
  | refused r hr hopen =>
    refine given ho rfl fun x ↦ ?_
    have hx := h.count_entering hr x
    simp only [holdings, h.refused_tickets hr, List.count_append, Request.holdings] at hx ⊢
    simp only [queue_mk, worker_mk]
    omega
  | taken lane r ms hw hq =>
    have hp := Queue.payloads_of_messages hq
    refine moved ho (by simp) fun x ↦ ?_
    cases lane
    all_goals simp [holdings, hw, hp, Worker.holdings, Request.begin, Request.holdings]
    all_goals omega
  | stopped lane ms hw hq =>
    have hp := Queue.payloads_of_messages hq
    refine moved ho (by simp) fun x ↦ ?_
    cases lane
    all_goals simp [holdings, hw, hp, Worker.holdings]
  | prepared r room heaps hp =>
    exact h.owns_prepared hheap hp ho
  | staged lane r st a added files codecState he =>
    have howns := h.owns_staged hheap he ho (.routing (st.routed lane) (st.next lane))
      (st.holdings_routed lane)
    cases lane <;> exact howns
  | crashed r room hw =>
    exact owns_crashed hw ho
  | published lane r hw =>
    refine moved ho (by simp) fun x ↦ ?_
    have hx := h.count_published hw x
    cases lane
    all_goals simp [holdings, hw, Worker.holdings] at hx ⊢
    all_goals omega
  | handedOff lane onward r hw =>
    refine moved ho (by simp) fun x ↦ ?_
    cases lane <;> cases onward
    all_goals simp [holdings, hw, Worker.holdings]
    all_goals omega
  | abandoned lane onward r hw =>
    refine given (b := r.buffer) ho (by simp) fun x ↦ ?_
    cases lane
    all_goals simp [holdings, hw, Worker.holdings, Request.holdings]
    all_goals omega
  | signaled lane id hw =>
    refine moved ho (by simp) fun x ↦ ?_
    have hx := updateAll_holdings (f := (·.signal)) (fun _ ↦ rfl) s.tickets id
    cases lane
    all_goals simp [holdings, hw, Worker.holdings, hx]
  | released lane id hw =>
    refine given (b := (s.ticket? id).bind fun k ↦ if k.held then none else k.buffer) ho
      (by simp) fun x ↦ ?_
    have hx := count_given (f := (·.release)) (h.desk.nodup h.census) id Ticket.holdings_release x
    cases lane
    all_goals simp [holdings, hw, Worker.holdings] at hx ⊢
    all_goals omega
  | left lane hw =>
    refine moved ho (by simp) fun x ↦ ?_
    cases lane
    all_goals simp [holdings, hw, Worker.holdings]
  | closing | unmarked | joined => exact ho
  | marked lane following hm =>
    refine moved ho (by simp) fun x ↦ ?_
    cases lane
    all_goals simp [holdings]
  | dismantled =>
    refine Heaps.Owns.discardAll (Heaps.Owns.discardAll (ho.perm ?_))
    refine List.perm_iff_count.2 fun x ↦ ?_
    simp [holdings, Queue.payloads]
    simp only [queue]
    omega
  | asked id q k hf =>
    obtain ⟨hk, rfl⟩ := ticket_mem hf
    refine moved ho rfl fun x ↦ ?_
    have hx := count_updateAll (h.desk.nodup h.census) hk (fun k ↦ (k.look q).2) x
    have hlook := k.holdings_look q x
    simp [holdings] at hx hlook ⊢
    omega
  | forgot id =>
    refine given (b := (s.ticket? id).bind fun k ↦ if k.released then k.buffer else none) ho
      rfl fun x ↦ ?_
    have hx := count_given (f := (·.forget)) (h.desk.nodup h.census) id Ticket.holdings_forget x
    simp [holdings] at hx ⊢
    omega
  | gaveBack b hb =>
    have hp := (perm_cons_filter_key Buffer.key (nodup_taken ho) hb).map Buffer.holding
    refine given (b := some b) ho rfl fun x ↦ ?_
    have hx := hp.count_eq x
    rw [List.map_cons, List.count_cons] at hx
    simp [holdings, List.count_singleton] at hx ⊢
    omega

end Service

end QueuedFiles
