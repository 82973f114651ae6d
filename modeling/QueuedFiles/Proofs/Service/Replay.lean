import QueuedFiles.Proofs.Service.Reference
import QueuedFiles.Proofs.Service.Turns

/-!
The run of a service against its orders carried out one at a time, in the order in which the file
worker came to them. A request that has not been there yet is what its order makes of it; from there
on it has what the order would get by itself.
-/

namespace QueuedFiles

def Incident.order? (id : Nat) : Incident → Option Order
  | .entered k o => if k = id then some o else none
  | _ => none

/-- The order that got a number. -/
def order? (log : List Incident) (id : Nat) : Option Order := log.findSome? (Incident.order? id)

/-- The orders in the order in which the file worker came to them. -/
def processed (log : List Incident) : List (Nat × Order) :=
  (log.filterMap Incident.filed?).filterMap fun id ↦ (order? log id).map (id, ·)

/-- How far a request is with its file. -/
inductive Phase where
  | draft
  | encoded
  | filed
  | done

def Post.phase (op : Operation) : Post → Phase
  | .caller => .draft
  | .queue .file | .hand .file .serving | .hand .file (.coding _) => .encoded
  | .hand .file (.routing (.handOff _)) => .filed
  | .hand .file (.routing .complete) => .done
  | .queue .codec | .hand .codec .serving | .hand .codec (.coding _) =>
    match op with
    | .write => .draft
    | .read => .filed
  | .hand .codec (.routing _) =>
    match op with
    | .write => .encoded
    | .read => .done

theorem Post.phase_taken (op : Operation) (lane : Lane) :
    (Post.hand lane .serving).phase op = (Post.queue lane).phase op := by
  cases lane <;> rfl

theorem Journey.phase_complete {op : Operation} {compressed : Bool} {l : List Leg} {lane : Lane}
    (h : Journey op compressed l (.hand lane (.routing .complete))) :
    (Post.hand lane (.routing .complete)).phase op = .done := by
  rcases h.split with ⟨-, hj⟩ | ⟨-, rfl, hj⟩ | ⟨-, rfl, hj⟩
  all_goals cases hj <;> rfl

/-- What a request has before its file is touched. -/
def Drafted (codec : Codec.Pure) (o : Order) (r : Request) : Phase → Prop
  | .draft => r.reply = Reference.draft o
  | .encoded => r.reply = Reference.encoded codec o
  | .filed | .done => True

/-- What a request has once its file has been touched, behind the orders before it. -/
def Answered (codec : Codec.Pure) {fs : FileSystem} (max : Nat) (files : fs.State)
    (os : List (Nat × Order)) (o : Order) (r : Request) : Phase → Prop
  | .draft | .encoded => True
  | .filed => ∃ before after data, os = before ++ (r.id, o) :: after ∧
      (Reference.readFile fs (Reference.sequence codec fs max files before).2 ⟨o.path⟩).1 = .ok data ∧
      r.payload = data ∧ r.result = .ok ()
  | .done => (r.id, r.reply) ∈ (Reference.sequence codec fs max files os).1

theorem Drafted.of_reply {codec : Codec.Pure} {o : Order} {q r : Request} {phase : Phase}
    (h : Drafted codec o q phase) (hr : r.reply = q.reply) : Drafted codec o r phase := by
  cases phase with
  | draft | encoded => exact hr.trans h
  | filed | done => trivial

theorem Answered.of_reply {codec : Codec.Pure} {fs : FileSystem} {max : Nat} {files : fs.State}
    {os : List (Nat × Order)} {o : Order} {q r : Request} {phase : Phase}
    (h : Answered codec max files os o q phase) (hid : r.id = q.id) (hr : r.reply = q.reply)
    (hpay : r.payload = q.payload) (hres : r.result = q.result) :
    Answered codec max files os o r phase := by
  cases phase with
  | draft | encoded => trivial
  | filed =>
    simp only [Answered, hid, hpay, hres]
    exact h
  | done =>
    simp only [Answered, hid, hr]
    exact h

theorem Answered.append {codec : Codec.Pure} {fs : FileSystem} {max : Nat} {files : fs.State}
    {os : List (Nat × Order)} {o : Order} {r : Request} {phase : Phase}
    (h : Answered codec max files os o r phase) (more : List (Nat × Order)) :
    Answered codec max files (os ++ more) o r phase := by
  cases phase with
  | draft | encoded => trivial
  | filed =>
    obtain ⟨before, after, data, rfl, hdata⟩ := h
    exact ⟨before, after ++ more, data, by simp, hdata⟩
  | done =>
    have hmem : (r.id, r.reply) ∈ (Reference.sequence codec fs max files os).1 := h
    have happ := Reference.sequence_append codec max files os more
    simp only [Answered, happ]
    exact List.mem_append_left _ hmem

theorem Answered.decompressed {codec : Codec.Pure} {fs : FileSystem} {max : Nat} {files : fs.State}
    {os : List (Nat × Order)} {o : Order} {r : Request} {config : Config} {heap : HeapId}
    {reply : Reply} (h : Answered codec max files os o r .filed)
    (hc : Service.Carries config heap o r)
    (hop : r.operation = .read) (hcomp : r.isCompressed = true)
    (hreply : r.result = .ok () → reply = Reference.decompress codec max r.payload) :
    (r.id, reply) ∈ (Reference.sequence codec fs max files os).1 := by
  obtain ⟨before, after, data, rfl, hdata, hpay, hres⟩ := h
  cases o with
  | write => cases hop.symm.trans hc.operation
  | read path k terminated compressed =>
    obtain rfl : compressed = true := by
      simpa [Request.isCompressed, hc.flags, Order.flags] using hcomp
    rw [hreply hres, hpay, ← Reference.execute_compressed codec max _ hdata]
    exact Reference.mem_sequence codec max files before after r.id _

namespace Service

variable {fs : FileSystem} {codec : Codec} {pure : Codec.Pure} {s t : Service fs codec}
  {log more : List Incident} {q r : Request} {p : Post} {o : Order} {config : Config}
  {heap : HeapId} {heaps : Heaps} {files : fs.State} {codecState : codec.State}

theorem Census.order?_eq (h : Census log s) {id : Nat} (ho : .entered id o ∈ log) :
    order? log id = some o := by
  have hsome : (order? log id).isSome = true := by
    rw [order?, List.findSome?_isSome_iff]
    exact ⟨_, ho, by simp [Incident.order?]⟩
  obtain ⟨o', ho'⟩ := Option.isSome_iff_exists.1 hsome
  obtain ⟨i, hi, hio⟩ := List.exists_of_findSome?_eq_some ho'
  cases i <;> simp only [Incident.order?, reduceCtorEq] at hio
  split at hio
  · next he =>
    cases hio
    subst he
    rw [ho', h.order_unique hi ho]
  · cases hio

theorem Run.processed_append (h : Run (fresh config heap heaps files codecState) log s)
    (more : List Incident) :
    processed (log ++ more) = processed log ++ (more.filterMap Incident.filed?).filterMap
      fun id ↦ (order? (log ++ more) id).map (id, ·) := by
  have hsame : ∀ id ∈ log.filterMap Incident.filed?,
      (order? (log ++ more) id).map (id, ·) = (order? log id).map (id, ·) := by
    intro id hid
    obtain ⟨⟨o, ho⟩, -⟩ := h.filed_order hid
    rw [order?, List.findSome?_append, ← order?, h.census.order?_eq ho]
    rfl
  rw [processed, List.filterMap_append, List.filterMap_append, List.filterMap_congr hsame]
  rfl

theorem Run.processed_ids (h : Run (fresh config heap heaps files codecState) log s) :
    (processed log).map (·.1) = log.filterMap Incident.filed? := by
  have hall : ∀ id ∈ log.filterMap Incident.filed?,
      ((order? log id).map (id, ·)).map (·.1) = some id := by
    intro id hid
    obtain ⟨⟨o, ho⟩, -⟩ := h.filed_order hid
    simp [h.census.order?_eq ho]
  rw [processed, List.map_filterMap, List.filterMap_congr hall, List.filterMap_some]

theorem Flow.entered_mem {p₀ : Post} (h : Flow s t more q p₀ r p) {id : Nat}
    (ho : .entered id o ∈ log ++ more) : .entered id o ∈ log := by
  cases h <;> simpa using ho

theorem entered_of_quiet {id : Nat} (hm : ∀ i ∈ more, i.id? ≠ some id)
    (ho : .entered id o ∈ log ++ more) : .entered id o ∈ log :=
  (List.mem_append.1 ho).resolve_right fun h ↦ hm _ h rfl

theorem Transition.filed (h : Transition s more t) :
    more.filterMap Incident.filed? = [] ∧ t.files = s.files ∨
    ∃ r staged, s.worker .file = .serving r ∧
      FileStage.run fs s.files s.heaps r = (staged, t.files) ∧
      more = [.staged .file r (staged.routed .file) staged.result] := by
  cases h with
  | staged lane r st a added files codecState he =>
    cases he with
    | file hw hs => exact .inr ⟨r, st, hw, by simpa using hs, rfl⟩
    | overflow | compress | decompress => exact .inl ⟨rfl, by simp⟩
  | left | crashed | dismantled => exact .inl ⟨by simp [Incident.filed?], by simp⟩
  | _ => exact .inl ⟨rfl, by simp⟩

variable {codecState : Codec.State (.ofPure pure)} {s t : Service fs (.ofPure pure)}

/-- A request that has not been to its file is as its order and the codec make it. -/
theorem Run.drafted (h : Run (fresh config heap heaps files codecState) log s) (hr : s.At r p) :
    ∀ o, .entered r.id o ∈ log → Drafted pure o r (p.phase r.operation) := by
  refine h.along (P := fun log r p ↦ ∀ o, .entered r.id o ∈ log →
    Drafted pure o r (p.phase r.operation)) ?_ ?_ ?_ hr
  · intro log more s t r h ht ha o ho
    have hct := ht.census h.census
    cases ha with
    | entered o' path =>
      have ho' : .entered s.nextId o' ∈ log ++ [.entered s.nextId o'] := by simp
      obtain rfl := hct.order_unique ho ho'
      cases o <;> rfl
  · intro log more s t r p h ht hd hm o ho
    exact hd o (entered_of_quiet hm ho)
  · intro log more s t q p₀ r p h ht hq hd hf o ho
    obtain ⟨hid, hop, -⟩ := hf.frame
    rw [hid] at ho
    have ho' := hf.entered_mem ho
    have hdq := hd o ho'
    have hc := h.carries hq ho'
    rw [hop]
    cases hf with
    | accepted =>
      rw [entryLane_eq]
      split
      · next he =>
        rw [he.1]
        exact hdq
      · next hn =>
        have hplain : o.operation = .read ∨ o.flags.contains .useCompression = false := by
          rw [← hc.operation, ← hc.flags]
          cases hqo : q.operation <;> simp_all
        exact (Eq.trans hdq (Reference.encoded_of_plain pure hplain).symm : q.reply = _)
    | taken lane =>
      rw [Post.phase_taken]
      exact hdq.of_reply rfl
    | prepared => exact hdq
    | @staged lane _ st _ _ _ _ task he =>
      cases he with
      | file => cases st.next .file <;> trivial
      | overflow hw hop' =>
        rw [hop']
        trivial
      | @decompress _ room _ _ hw =>
        rw [(h.decompressing hw).1]
        trivial
      | @compress _ answer state hw hcall =>
        cases hcall
        have hat : s.At q (.hand .codec (.coding none)) := hw
        obtain ⟨hwrite, hcomp⟩ := h.compressing hw
        cases (h.census.unique hq hat rfl).2
        rw [hwrite] at hdq ⊢
        cases o with
        | read => cases hwrite.symm.trans hc.operation
        | write path bytes compressed append =>
          obtain rfl : compressed = true := by
            simpa [Request.isCompressed, hc.flags, Order.flags] using hcomp
          exact (Staged.reply_routed _ _).trans (CodecStage.compressed_reply pure s.heaps q hdq)
    | handedOff lane onward =>
      rcases Journey.routing (h.bearing hq).journey with ⟨-, ⟨hread, rfl, rfl⟩ | ⟨hwrite, rfl, rfl⟩⟩
      · rw [hread]
        trivial
      · rw [hwrite] at hdq
        exact hdq

/-- A file stage does what the order would do by itself. -/
theorem Run.file_stage (h : Run (fresh config heap heaps files codecState) log s)
    (hw : s.worker .file = .serving r) (ho : .entered r.id o ∈ log) (max : Nat) {staged : Staged}
    {after : fs.State} (hs : FileStage.run fs s.files s.heaps r = (staged, after)) :
    after = (Reference.execute pure fs max s.files o).2 ∧
    match staged.next .file with
    | .complete => staged.reply = (Reference.execute pure fs max s.files o).1
    | .handOff _ => ∃ data, (Reference.readFile fs s.files ⟨o.path⟩).1 = .ok data ∧
        staged.result = .ok () ∧ staged.request.result = .ok () ∧ staged.request.payload = data := by
  have hat : s.At r (.hand .file .serving) := hw
  have hd : r.reply = Reference.encoded pure o := h.drafted hat o ho
  have hc := h.carries hat ho
  have hpath := hc.path_eq
  have he := StageEnd.file hw hs
  cases o with
  | read path k terminated compressed =>
    have hrun := FileStage.run_read s.files s.heaps r hc.operation hpath hc.flags pure max hd
    rw [hs] at hrun
    refine ⟨hrun.1, ?_⟩
    have hrest := hrun.2
    cases hn : staged.next .file with
    | complete =>
      simp only [hn] at hrest
      exact hrest
    | handOff onward =>
      simp only [hn] at hrest
      exact hrest.2
  | write path bytes compressed append =>
    have hrun := FileStage.run_write s.files s.heaps r hc.operation hpath hc.flags pure max hd
    rw [hs] at hrun
    have hn : staged.next .file = .complete := by
      rw [he.next_eq, hc.operation]
      rfl
    rw [hn]
    exact hrun

theorem Run.processed_staged (h : Run (fresh config heap heaps files codecState) log s)
    (ht : Transition s more t) {after : Request} {result : Except Error Unit}
    (ho : .entered r.id o ∈ log) (hm : more = [.staged .file r after result]) :
    processed (log ++ more) = processed log ++ [(r.id, o)] := by
  have hsome := (ht.census h.census).order?_eq (List.mem_append_left more ho)
  rw [h.processed_append, hm]
  rw [hm] at hsome
  simp [Incident.filed?, hsome]

/-- The files are those behind the orders carried out one at a time. -/
theorem Run.replayed (h : Run (fresh config heap heaps files codecState) log s) (max : Nat) :
    s.files = (Reference.sequence pure fs max files (processed log)).2 := by
  induction h with
  | refl => rfl
  | @step log s t m h hs ih =>
    have ht := step_transition m hs
    generalize s.record m = more at ht
    rcases ht.filed with ⟨hno, hf⟩ | ⟨r, staged, hw, hrun, hm⟩
    · rw [h.processed_append, hno, List.filterMap_nil, List.append_nil, hf]
      exact ih
    · have hat : s.At r (.hand .file .serving) := hw
      obtain ⟨o, ho, -⟩ := (h.bearing hat).order
      rw [h.processed_staged ht ho hm, Reference.sequence_snoc, ← ih]
      exact (h.file_stage hw ho max hrun).1

theorem Run.answered_filed (h : Run (fresh config heap heaps files codecState) log s)
    (ht : Transition s more t) (hw : s.worker .file = .serving r) (ho : .entered r.id o ∈ log)
    {staged : Staged} {after : fs.State} (hs : FileStage.run fs s.files s.heaps r = (staged, after))
    (hm : more = [.staged .file r (staged.routed .file) staged.result]) :
    Answered pure config.maxDecompressedSize.toNat files (processed (log ++ more)) o
      (staged.routed .file) ((Post.hand .file (.routing (staged.next .file))).phase r.operation) := by
  have hid : (staged.routed .file).id = r.id :=
    (staged.routed_frame .file).1.trans (StageEnd.file hw hs).resized.id
  have hrouted := Staged.reply_routed staged .file
  obtain ⟨-, hstage⟩ := h.file_stage hw ho config.maxDecompressedSize.toNat hs
  rw [h.processed_staged ht ho hm]
  cases hn : staged.next .file with
  | complete =>
    simp only [hn] at hstage
    simp only [Post.phase, Answered, Reference.sequence_snoc, hid, hrouted, hstage,
      h.replayed config.maxDecompressedSize.toNat]
    exact List.mem_append_right _ (List.mem_singleton_self _)
  | handOff onward =>
    simp only [hn] at hstage
    obtain ⟨data, hdata, hresult, hres, hpay⟩ := hstage
    refine ⟨processed log, [], data, by rw [hid], ?_, ?_, ?_⟩
    · rwa [← h.replayed]
    · simpa [Request.payload] using hpay
    · have hrr := congrArg Reply.result hrouted
      simpa [Staged.reply, hresult, hres, Request.reply, Request.outcome, Outcome.reply] using hrr

/-- A request that has been to its file has what its order would get there. -/
theorem Run.answered (h : Run (fresh config heap heaps files codecState) log s) (hr : s.At r p) :
    ∀ o, .entered r.id o ∈ log → Answered pure config.maxDecompressedSize.toNat files
      (processed log) o r (p.phase r.operation) := by
  refine h.along (P := fun log r p ↦ ∀ o, .entered r.id o ∈ log →
    Answered pure config.maxDecompressedSize.toNat files (processed log) o r
      (p.phase r.operation)) ?_ ?_ ?_ hr
  · intro log more s t r h ht ha o ho
    trivial
  · intro log more s t r p h ht ha hm o ho
    rw [h.processed_append]
    exact (ha o (entered_of_quiet hm ho)).append _
  · intro log more s t q p₀ r p h ht hq ha hf o ho
    obtain ⟨hid, hop, -⟩ := hf.frame
    rw [hid] at ho
    have ho' := hf.entered_mem ho
    have haq := (ha o ho').append
      ((more.filterMap Incident.filed?).filterMap fun id ↦ (order? (log ++ more) id).map (id, ·))
    rw [← h.processed_append] at haq
    have hc := h.carries hq ho'
    have hj := (h.bearing hq).journey
    rw [hop]
    cases hf with
    | accepted =>
      rw [entryLane_eq]
      split
      · next he =>
        rw [he.1]
        trivial
      · trivial
    | taken lane =>
      rw [Post.phase_taken]
      exact haq.of_reply rfl rfl rfl rfl
    | prepared => exact haq
    | handedOff lane onward =>
      rcases Journey.routing hj with ⟨-, ⟨hread, rfl, rfl⟩ | ⟨hwrite, rfl, rfl⟩⟩
      · rw [hread] at haq ⊢
        exact haq
      · rw [hwrite]
        trivial
    | @staged lane _ st _ _ _ _ task he hheaps hfiles =>
      have hrouted := Staged.reply_routed st lane
      cases he with
      | file hw hs => exact h.answered_filed ht hw ho' hs rfl
      | overflow hw hread hcap =>
        have hat : s.At q (.hand .codec .serving) := hw
        cases (h.census.unique hq hat rfl).2
        rw [hread] at haq ⊢
        have hcomp := Journey.codec_lane hj rfl
        rw [h.frame.1] at hcap
        simp only [Post.phase, Answered, hid, hrouted]
        refine haq.decompressed hc hread hcomp fun _ ↦ ?_
        rw [h.frame.1]
        exact CodecStage.overflow_eq pure _ _ _ hcap _
      | @decompress _ room _ _ hw hcall =>
        have hat : s.At q (.hand .codec (.coding (some room))) := hw
        cases (h.census.unique hq hat rfl).2
        obtain ⟨hread, hcomp⟩ := h.decompressing hw
        cases hcall
        rw [hread] at haq ⊢
        simp only [Post.phase, Answered, hid, hrouted]
        refine haq.decompressed hc hread hcomp fun hres ↦ ?_
        rw [h.frame.1]
        exact CodecStage.decompressed_eq pure _ _ _ (by simp [h.reserved hat]) hres room rfl
      | @compress _ answer state hw hcall =>
        rw [(h.compressing hw).1]
        trivial

end Service

end QueuedFiles
