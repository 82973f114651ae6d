import QueuedFiles.Block.Samples
import QueuedFiles.Proofs.Disk.Writes
import QueuedFiles.Proofs.Service.Replay
import QueuedFiles.Proofs.Service.Staging

/-!
What is in a file behind the writes to it, in the order in which the file worker came to them: the
payloads from the last write on that was not to append, and no other file is touched.
-/

namespace QueuedFiles

/-- What a write has put into its file, in place of its content or behind it. -/
structure Deposit where
  append : Bool
  bytes : Bytes
deriving DecidableEq

/-- The content behind a write of a file that had some content before. -/
def Deposit.onto (content : Bytes) (d : Deposit) : Bytes :=
  (if d.append then content else []) ++ d.bytes

def Incident.deposit? (files : Disk) (l : Location) : Incident → Option Deposit
  | .staged .file r _ (.ok ()) =>
    if r.operation = .write ∧ files.locate r.path.text = l then
      some ⟨r.flags.contains .appendMode, r.payload⟩
    else none
  | _ => none

def deposits (files : Disk) (l : Location) (log : List Incident) : List Deposit :=
  log.filterMap (Incident.deposit? files l)

theorem deposits_append (files : Disk) (l : Location) (log more : List Incident) :
    deposits files l (log ++ more) = deposits files l log ++ deposits files l more :=
  List.filterMap_append

theorem foldl_onto_append {ds : List Deposit} (h : ∀ d ∈ ds, d.append = true) (content : Bytes) :
    ds.foldl Deposit.onto content = content ++ ds.flatMap (·.bytes) := by
  induction ds generalizing content with
  | nil => simp
  | cons d ds ih =>
    have hd : d.append = true := h d (List.mem_cons_self ..)
    have hds := ih fun e he ↦ h e (List.mem_cons_of_mem d he)
    rw [List.foldl_cons, hds, List.flatMap_cons, Deposit.onto, if_pos hd, List.append_assoc]

theorem foldl_onto_rewrite {before after : List Deposit} {d : Deposit} (hd : d.append = false)
    (content : Bytes) :
    (before ++ d :: after).foldl Deposit.onto content = after.foldl Deposit.onto d.bytes := by
  rw [List.foldl_append, List.foldl_cons, Deposit.onto, hd]
  rfl

theorem Incident.deposit?_of_not_filed {i : Incident} (h : i.filed? = none) (files : Disk)
    (l : Location) : i.deposit? files l = none := by
  cases i with
  | staged lane r after result =>
    cases lane with
    | file => cases h
    | codec => rfl
  | _ => rfl

theorem deposits_of_not_filed {log : List Incident} (h : log.filterMap Incident.filed? = [])
    (files : Disk) (l : Location) : deposits files l log = [] := by
  rw [List.filterMap_eq_nil_iff] at h
  exact List.filterMap_eq_nil_iff.2 fun i hi ↦ Incident.deposit?_of_not_filed (h i hi) files l

theorem CodecStage.checkedBlock_eq_ok {name : String} {r : Request}
    {answer : Except BlockError Bytes} {block : Bytes}
    (h : checkedBlock name r answer = .ok block) : answer = .ok block := by
  cases answer with
  | error e => exact h
  | ok b =>
    simp only [checkedBlock] at h
    split at h
    · cases h
    · exact h

theorem CodecStage.compressed_ok (heaps : Heaps) (r : Request) (block : Bytes) :
    (compressed heaps r (.ok block)).request.payload = block ∧
      (compressed heaps r (.ok block)).result = .ok () := by
  simp [compressed, Heaps.adopt, Request.payload]

theorem CodecStage.compressed_error (heaps : Heaps) (r : Request) (e : BlockError) :
    (compressed heaps r (.error e)).request.payload = [] ∧
      (compressed heaps r (.error e)).result = .error (.compression e) := by
  simp [compressed, Heaps.adopt, Heaps.alloc, Request.payload]

namespace FileStage

variable {d e : Disk} {heaps : Heaps} {r : Request} {staged : Staged}

theorem run_same (hop : r.operation = .read) (h : run Disk.fileSystem d heaps r = (staged, e)) :
    e = d := by
  have heq : (staged, e) = read Disk.fileSystem d heaps r := h.symm.trans (run_of_read hop)
  have hread := (@read_eq Disk.fileSystem d heaps r).1.trans (d.readFile_same r.path)
  exact (congrArg Prod.snd heq).trans hread

theorem run_keeps (h : run Disk.fileSystem d heaps r = (staged, e)) :
    d.Grows e ∧ ∀ l, d.Plain l → e.Plain l := by
  cases hop : r.operation with
  | read =>
    obtain rfl := run_same hop h
    exact ⟨.refl e, fun _ hl ↦ hl⟩
  | write =>
    have hwrite := d.writeFile_rewrites r.path (r.flags.contains .appendMode) r.payload
    rw [(write_staged hop h).1] at hwrite
    exact ⟨hwrite.grows, hwrite.plain⟩

/-- A file stage adds its deposit to the file, if it makes one there. -/
theorem run_deposits (h : run Disk.fileSystem d heaps r = (staged, e)) {files : Disk} {l : Location}
    (hg : files.Grows d) (hp : d.Plain l) (after : Request) :
    (Incident.staged .file r after staged.result).deposit? files l = none ∧ e.find? l = d.find? l ∨
      ∃ x, (Incident.staged .file r after staged.result).deposit? files l = some x ∧
        e.find? l = some (.file (x.onto (d.contentAt l))) := by
  cases hop : r.operation with
  | read =>
    obtain rfl := run_same hop h
    left
    refine ⟨?_, rfl⟩
    cases staged.result <;> simp [Incident.deposit?, hop]
  | write =>
    have hwrite := (write_staged hop h).1
    have hlocate := hg.locate r.path.text
    by_cases hl : files.locate r.path.text = l
    · rw [← hl, ← hlocate] at hp ⊢
      rcases Disk.writeFile_or hp (r.flags.contains .appendMode) r.payload with
        ⟨hok, hn, ht⟩ | ⟨fault, herror⟩
      · have hcontent := Disk.writeFile_content hn ht hp (r.flags.contains .appendMode) r.payload
        rw [hwrite] at hok hcontent
        obtain hok : staged.result = .ok () := hok
        right
        refine ⟨⟨r.flags.contains .appendMode, r.payload⟩, ?_, hcontent⟩
        simp [Incident.deposit?, hok, hop, hlocate]
      · rw [hwrite] at herror
        obtain ⟨hfail, rfl⟩ := Prod.mk.inj herror
        left
        refine ⟨?_, rfl⟩
        rw [hfail]
        rfl
    · have hrewrites := d.writeFile_rewrites r.path (r.flags.contains .appendMode) r.payload
      rw [hwrite, hlocate] at hrewrites
      left
      refine ⟨?_, hrewrites.frame l (Ne.symm hl)⟩
      cases staged.result <;> simp [Incident.deposit?, hl]

theorem run_elsewhere (h : run Disk.fileSystem d heaps r = (staged, e)) {path : String}
    (hl : r.operation = .write → d.locate path ≠ d.locate r.path.text) :
    e.inspect path = d.inspect path := by
  cases hop : r.operation with
  | read =>
    obtain rfl := run_same hop h
    rfl
  | write =>
    have hframe := Disk.writeFile_frame (hl hop) (r.flags.contains .appendMode) r.payload
    rwa [(write_staged hop h).1] at hframe

/-- Once a write has gone through, its path leads to the file. -/
theorem run_resolves (hop : r.operation = .write) (h : run Disk.fileSystem d heaps r = (staged, e))
    (hp : d.Plain (d.locate r.path.text)) (hok : staged.result = .ok ()) {f : Disk}
    (hg : e.Grows f) : f.resolve r.path.text = .ok (d.locate r.path.text) := by
  have hwrite := (write_staged hop h).1
  rcases Disk.writeFile_or hp (r.flags.contains .appendMode) r.payload with
    ⟨-, hn, ht⟩ | ⟨fault, herror⟩
  · have hcontent := Disk.writeFile_content hn ht hp (r.flags.contains .appendMode) r.payload
    rw [hwrite] at hcontent
    have hthere : (e.find? (d.locate r.path.text)).isSome = true := by simp [hcontent]
    exact ((run_keeps h).1.trans hg).resolve_target ht (hg.present _ hthere)
  · rw [hwrite, hok] at herror
    cases herror

/-- What a write does to the disk, and what it tells of it. -/
structure WriteTurn (d e : Disk) (r after : Request) (result : Except Error Unit) : Prop where
  size : result = .ok () → after.size = r.payload.length
  grown : result = .ok () → r.flags.contains .appendMode = true → d.Plain (d.locate r.path.text) →
    e.sizeOf (d.locate r.path.text) = d.sizeOf (d.locate r.path.text) + after.size
  /-- Where nothing is, the flags make no difference. -/
  missing : d.inspect r.path.text = none → ∀ flags heaps,
    ∃ staged, run Disk.fileSystem d heaps { r with flags := flags } = (staged, e) ∧
      staged.result = result ∧ staged.request.size = after.size ∧
      staged.request.buffer = after.buffer
  refused : r.path.native = .ok r.path.text →
    d.find? (d.locate r.path.text) = some .directory ∨ ¬ d.HasParent r.path.text →
    (∃ fault, result = .error (.file .opening r.path.text fault)) ∧ e = d
  elsewhere : ∀ path, d.locate path ≠ d.locate r.path.text → e.inspect path = d.inspect path

theorem run_turn (hop : r.operation = .write) (h : run Disk.fileSystem d heaps r = (staged, e)) :
    WriteTurn d e r (staged.routed .file) staged.result where
  size hok := by simp [(write_staged hop h).2.2, hok]
  grown hok happend hp := by
    have hwrite := (write_staged hop h).1
    rcases Disk.writeFile_or hp (r.flags.contains .appendMode) r.payload with
      ⟨-, hn, ht⟩ | ⟨fault, herror⟩
    · have hcontent := Disk.writeFile_content hn ht hp (r.flags.contains .appendMode) r.payload
      rw [hwrite, if_pos happend] at hcontent
      have hsize : e.sizeOf (d.locate r.path.text) =
          (d.contentAt (d.locate r.path.text) ++ r.payload).length := by
        unfold Disk.sizeOf
        rw [hcontent]
      rw [hsize, Disk.sizeOf_eq (Disk.target_free ht), List.length_append]
      simp [(write_staged hop h).2.2, hok]
    · rw [hwrite, hok] at herror
      cases herror
  missing hnone flags heaps := by
    obtain ⟨hwrite, hbuffer, hsize⟩ := write_staged hop h
    generalize hother : run Disk.fileSystem d heaps { r with flags := flags } = other
    obtain ⟨staged', e'⟩ := other
    obtain ⟨hwrite', hbuffer', hsize'⟩ := write_staged (r := { r with flags := flags }) hop hother
    -- Both are the write that does not append.
    have hsame := (Disk.writeFile_missing hnone (r.flags.contains .appendMode) r.payload).trans
      (Disk.writeFile_missing hnone (flags.contains .appendMode) r.payload).symm
    rw [hwrite] at hsame
    obtain ⟨hresult, rfl⟩ := Prod.mk.inj (hsame.trans hwrite')
    refine ⟨staged', rfl, hresult.symm, ?_, ?_⟩
    · rw [hsize', ← hresult, (staged.routed_frame .file).2.2.2.2.2.1, hsize]
      rfl
    · rw [hbuffer', (staged.routed_frame .file).2.2.2.2.1, hbuffer]
  refused hn hplace := by
    obtain ⟨fault, ht⟩ := Disk.resolveTarget_error hplace
    have hwrite := (write_staged hop h).1
    rw [Disk.writeFile_refused hn ht] at hwrite
    obtain ⟨hresult, rfl⟩ := Prod.mk.inj hwrite
    exact ⟨⟨fault, hresult.symm⟩, rfl⟩
  elsewhere path hl := run_elsewhere h fun _ ↦ hl

end FileStage

/-- What is at a location behind some writes to it. -/
def leftAt (files : Disk) (l : Location) (ds : List Deposit) : Option Node :=
  if ds = [] then files.find? l else some (.file (ds.foldl Deposit.onto (files.contentAt l)))

theorem leftAt_of_append {files : Disk} {l : Location} {ds : List Deposit} (hne : ds ≠ [])
    (h : ∀ d ∈ ds, d.append = true) :
    leftAt files l ds = some (.file (files.contentAt l ++ ds.flatMap (·.bytes))) := by
  rw [leftAt, if_neg hne, foldl_onto_append h]

theorem leftAt_of_rewrite {files : Disk} {l : Location} {before after : List Deposit} {d : Deposit}
    (hd : d.append = false) (h : ∀ x ∈ after, x.append = true) :
    leftAt files l (before ++ d :: after) =
      some (.file (d.bytes ++ after.flatMap (·.bytes))) := by
  rw [leftAt, if_neg (by simp), foldl_onto_rewrite hd, foldl_onto_append h]

theorem contentAt_of_find? {files e : Disk} {l : Location} {ds : List Deposit}
    (h : e.find? l = leftAt files l ds) :
    e.contentAt l = ds.foldl Deposit.onto (files.contentAt l) := by
  unfold leftAt at h
  split at h
  · next hn => simp [hn, Disk.contentAt, h]
  · rw [Disk.contentAt, h]

theorem leftAt_append {files d e : Disk} {l : Location} {ds more : List Deposit}
    (h : d.find? l = leftAt files l ds)
    (hmore : more = [] ∧ e.find? l = d.find? l ∨
      ∃ x, more = [x] ∧ e.find? l = some (.file (x.onto (d.contentAt l)))) :
    e.find? l = leftAt files l (ds ++ more) := by
  rcases hmore with ⟨rfl, hf⟩ | ⟨x, rfl, hf⟩
  · rw [hf, List.append_nil]
    exact h
  · rw [hf, contentAt_of_find? h, leftAt, if_neg (by simp), List.foldl_append]
    rfl

namespace Service

section

variable {codec : Codec} {s t u : Service Disk.fileSystem codec} {log more : List Incident}
  {l : Location} {files : Disk}

theorem Transition.grows (h : Transition s more t) :
    s.files.Grows t.files ∧ ∀ l, s.files.Plain l → t.files.Plain l := by
  rcases h.filed with ⟨-, hf⟩ | ⟨r, staged, -, hs, -⟩
  · rw [hf]
    exact ⟨.refl _, fun _ hl ↦ hl⟩
  · exact FileStage.run_keeps hs

theorem Run.grows (h : Run s log t) :
    s.files.Grows t.files ∧ ∀ l, s.files.Plain l → t.files.Plain l := by
  induction h with
  | refl => exact ⟨.refl _, fun _ hl ↦ hl⟩
  | step m h hs ih =>
    obtain ⟨hg, hp⟩ := (step_transition m hs).grows
    exact ⟨ih.1.trans hg, fun l hl ↦ hp l (ih.2 l hl)⟩

theorem Transition.content (h : Transition s more t) (hg : files.Grows s.files)
    (hp : s.files.Plain l) :
    deposits files l more = [] ∧ t.files.find? l = s.files.find? l ∨
      ∃ x, deposits files l more = [x] ∧
        t.files.find? l = some (.file (x.onto (s.files.contentAt l))) := by
  rcases h.filed with ⟨hno, hf⟩ | ⟨r, staged, -, hs, rfl⟩
  · exact .inl ⟨deposits_of_not_filed hno files l, by rw [hf]⟩
  · rcases FileStage.run_deposits hs hg hp (staged.routed .file) with ⟨hd, hf⟩ | ⟨x, hd, hf⟩
    · exact .inl ⟨by simp [deposits, hd], hf⟩
    · exact .inr ⟨x, by simp [deposits, hd], hf⟩

theorem Run.content {s₀ : Service Disk.fileSystem codec} (h : Run s₀ log s) (hp : s₀.files.Plain l) :
    s.files.find? l = leftAt s₀.files l (deposits s₀.files l log) := by
  induction h with
  | refl => rfl
  | @step log s t m h hs ih =>
    obtain ⟨hg, hplain⟩ := h.grows
    have hmore := (step_transition m hs).content hg (hplain l hp)
    exact (leftAt_append ih hmore).trans (congrArg (leftAt _ l) (deposits_append ..).symm)

theorem Run.path_leads {s₀ : Service Disk.fileSystem codec} (h : Run s₀ log s) {path : String}
    (hp : s₀.files.Plain (s₀.files.locate path))
    (hseen : (s₀.files.inspect path).isSome = true ∨ (∃ r after,
      .staged .file r after (.ok ()) ∈ log ∧ r.operation = .write ∧ r.path.text = path)) :
    s.files.inspect path = s.files.find? (s₀.files.locate path) := by
  have hresolves : s.files.resolve path = .ok (s₀.files.locate path) := by
    rcases hseen with hsome | ⟨r, after, hm, hop, rfl⟩
    · obtain ⟨l, hl⟩ := Disk.resolve_of_inspect hsome
      rw [← Disk.resolve_eq_locate hl]
      exact h.grows.1.resolve hl
    · obtain ⟨before, rest, hlog⟩ := List.append_of_mem hm
      obtain ⟨u, v, staged, hu, -, hs, -, hok, -, hv⟩ := h.file_cut hlog
      obtain ⟨hg, hplain⟩ := hu.grows
      have hlocate := hg.locate r.path.text
      have hpu := hplain _ hp
      rw [← hlocate] at hpu ⊢
      exact FileStage.run_resolves hop hs hpu hok.symm hv.grows.1
  unfold Disk.inspect
  rw [hresolves]

theorem Run.elsewhere {s₀ : Service Disk.fileSystem codec} (h : Run s₀ log s) {path : String}
    (hno : ∀ r after result, .staged .file r after result ∈ log → r.operation = .write →
      s₀.files.locate path ≠ s₀.files.locate r.path.text) :
    s.files.inspect path = s₀.files.inspect path := by
  induction h with
  | refl => rfl
  | @step log s t m h hs ih =>
    have hrest := ih fun r after result hm ↦ hno r after result (List.mem_append_left _ hm)
    have hg := h.grows.1
    rcases (step_transition m hs).filed with ⟨-, hf⟩ | ⟨r, staged, -, hrun, hm⟩
    · exact (congrArg (Disk.inspect · path) hf).trans hrest
    · refine (FileStage.run_elsewhere hrun fun hop ↦ ?_).trans hrest
      rw [hg.locate, hg.locate]
      exact hno r (staged.routed .file) staged.result (List.mem_append_right _ (by simp [hm])) hop

end

section

variable {fs : FileSystem} {codec : Codec} {s t u s₀ : Service fs codec} {log more : List Incident}
  {q r : Request} {p : Post} {id : Nat} {path : String} {bytes payload : Bytes}
  {compressed : Bool} {config : Config} {heap : HeapId} {heaps : Heaps} {files : fs.State}
  {codecState : codec.State}

/-- What a write brings to its file: the caller's bytes, or the block that the codec has made of
them, or nothing if that has failed. -/
inductive Stores (s₀ : Service fs codec) (log : List Incident) (id : Nat) (bytes : Bytes) :
    Bool → Bytes → Prop
  | plain : Stores s₀ log id bytes false bytes
  | block {before rest : List Incident} {q after : Request} {u : Service fs codec} {block : Bytes}
      {state : codec.State} (hlog : log = before ++ .staged .codec q after (.ok ()) :: rest)
      (hid : q.id = id) (hu : Run s₀ before u)
      (hcall : codec.compress u.codecState bytes = .returns (.ok block) state) :
      Stores s₀ log id bytes true block
  | failed {q after : Request} {e : Error} (hm : .staged .codec q after (.error e) ∈ log)
      (hid : q.id = id) : Stores s₀ log id bytes true []

theorem Stores.append (h : Stores s₀ log id bytes compressed payload) (more : List Incident) :
    Stores s₀ (log ++ more) id bytes compressed payload := by
  cases h with
  | plain => exact .plain
  | @block before rest q after u block state hlog hid hu hcall =>
    have hmore : log ++ more = before ++ .staged .codec q after (.ok ()) :: (rest ++ more) := by
      simp [hlog]
    exact .block hmore hid hu hcall
  | failed hm hid => exact .failed (List.mem_append_left _ hm) hid

/-- A compression that has ended leaves the block, or nothing. -/
theorem Run.stores_compressed (h : Run s₀ log s) {answer : Except BlockError Bytes}
    {state : codec.State} (hcall : codec.compress s.codecState q.payload = .returns answer state)
    (after : Request) :
    let staged := CodecStage.compressed s.heaps q (CodecStage.checkedBlock codec.name q answer)
    Stores s₀ (log ++ [.staged .codec q after staged.result]) q.id q.payload true
      staged.request.payload := by
  cases hb : CodecStage.checkedBlock codec.name q answer with
  | ok block =>
    obtain ⟨hblock, hresult⟩ := CodecStage.compressed_ok s.heaps q block
    rw [CodecStage.checkedBlock_eq_ok hb] at hcall
    simp only [hblock, hresult]
    exact .block rfl rfl h hcall
  | error e =>
    obtain ⟨hblock, hresult⟩ := CodecStage.compressed_error s.heaps q e
    simp only [hblock, hresult]
    exact .failed (List.mem_append_right _ (List.mem_singleton_self _)) rfl

def Storing (s₀ : Service fs codec) (log : List Incident) (r : Request) (bytes : Bytes)
    (compressed : Bool) : Phase → Prop
  | .draft => r.payload = bytes
  | .encoded => Stores s₀ log r.id bytes compressed r.payload
  | .filed | .done => True

theorem Storing.append {phase : Phase} (h : Storing s₀ log r bytes compressed phase)
    (more : List Incident) : Storing s₀ (log ++ more) r bytes compressed phase := by
  cases phase with
  | draft => exact h
  | encoded => exact Stores.append h more
  | filed | done => trivial

theorem Run.storing (h : Run (fresh config heap heaps files codecState) log s) (hr : s.At r p) :
    ∀ path bytes compressed append, .entered r.id (.write path bytes compressed append) ∈ log →
      Storing (fresh config heap heaps files codecState) log r bytes compressed
        (p.phase .write) := by
  refine h.along (P := fun log r p ↦ ∀ path bytes compressed append,
    .entered r.id (.write path bytes compressed append) ∈ log →
      Storing (fresh config heap heaps files codecState) log r bytes compressed (p.phase .write))
    ?_ ?_ ?_ hr
  · intro log more s t r h ht ha path bytes compressed append ho
    have hct := ht.census h.census
    cases ha with
    | entered o' path' =>
      have ho' : .entered s.nextId o' ∈ log ++ [.entered s.nextId o'] := by simp
      obtain rfl := hct.order_unique ho ho'
      simp [Storing, Post.phase, Order.draw, Order.request, Request.payload, Heaps.adopt,
        Buffer.length]
  · intro log more s t r p h ht hd hm path bytes compressed append ho
    exact Storing.append (hd path bytes compressed append (entered_of_quiet hm ho)) more
  · intro log more s t q p₀ r p h ht hq hd hf path bytes compressed append ho
    obtain ⟨hid, hop, -⟩ := hf.frame
    rw [hid] at ho
    have ho' := hf.entered_mem ho
    have hdq := hd path bytes compressed append ho'
    have hc := h.carries hq ho'
    have hwrite : q.operation = .write := hc.operation
    cases hf with
    | accepted =>
      rw [entryLane_eq]
      split
      · exact hdq
      · next hn =>
        obtain rfl : compressed = false := by simpa [hwrite, hc.flags, Order.flags] using hn
        have hpayload : q.payload = bytes := hdq
        simp only [Post.phase, Storing, hpayload]
        exact .plain
    | taken lane =>
      rw [Post.phase_taken]
      exact Storing.append hdq _
    | prepared => exact Storing.append hdq _
    | handedOff lane onward =>
      rcases Journey.routing (h.bearing hq).journey with ⟨-, ⟨hread, -⟩ | ⟨-, rfl, rfl⟩⟩
      · cases hwrite.symm.trans hread
      · exact Storing.append hdq _
    | @staged lane _ st _ _ _ _ task he =>
      cases he with
      | file => cases st.next .file <;> trivial
      | overflow hw hread => cases hwrite.symm.trans hread
      | decompress hw => cases hwrite.symm.trans (h.decompressing hw).1
      | @compress _ answer state hw hcall =>
        have hat : s.At q (.hand .codec (.coding none)) := hw
        obtain rfl : compressed = true := by
          simpa [Request.isCompressed, hc.flags, Order.flags] using (h.compressing hw).2
        cases (h.census.unique hq hat rfl).2
        obtain rfl : q.payload = bytes := hdq
        have hnumber : (CodecStage.compressed s.heaps q
            (CodecStage.checkedBlock codec.name q answer)).request.id = q.id :=
          (CodecStage.compressed_resized _ _ _).id
        simp only [Post.phase, Storing, Staged.payload_routed, Staged.routed_frame, hnumber]
        exact h.stores_compressed hcall _

/-- A write is over with its file stage, and keeps an earlier failure unless that fails, too. -/
theorem Run.published_filed (h : Run (fresh config heap heaps files codecState) log s) {o : Outcome}
    {order : Order} (hl : .published id o ∈ log) (ho : .entered id order ∈ log)
    (hop : order.operation = .write) :
    ∃ r after result, .staged .file r after result ∈ log ∧ r.id = id ∧ o.size = after.size ∧
      o.result = (match result with
        | .ok () => r.result
        | .error e => .error e) := by
  obtain ⟨lane, q, staged, hleaves, rfl, hnext, rfl⟩ := h.published_leaves hl
  have hwrite : q.operation = .write := (hleaves.carries h ho).operation.trans hop
  obtain ⟨before, rest, u, a, added, files', codecState', hlog, hu, he, -⟩ := hleaves.cut
  have hn := he.next_eq.symm.trans hnext
  cases lane with
  | codec => simp [nextAfter, hwrite] at hn
  | file =>
    refine ⟨q, staged.routed .file, staged.result, by simp [hlog], rfl, ?_, ?_⟩
    · simp [Request.outcome]
    · cases hres : staged.result with
      | ok => simp [Request.outcome, Staged.settled, hres, he.resized.result]
      | error e => simp [Request.outcome, Staged.settled, hres, Request.fail]

theorem Run.brought (h : Run (fresh config heap heaps files codecState) log s) {after : Request}
    {result : Except Error Unit} {append : Bool} (hm : .staged .file r after result ∈ log)
    (ho : .entered r.id (.write path bytes compressed append) ∈ log) :
    r.path.text = path ∧ r.flags.contains .appendMode = append ∧
      Stores (fresh config heap heaps files codecState) log r.id bytes compressed r.payload := by
  obtain ⟨before, rest, hlog⟩ := List.append_of_mem hm
  obtain ⟨u, v, staged, hu, hw, -⟩ := h.file_cut hlog
  have hat : u.At r (.hand .file .serving) := hw
  obtain ⟨order, horder, hc⟩ := (hu.bearing hat).order
  have hlater : .entered r.id order ∈ log := by simp [hlog, horder]
  obtain rfl := h.census.order_unique ho hlater
  have hstores : Stores _ before r.id bytes compressed r.payload :=
    hu.storing hat path bytes compressed append horder
  refine ⟨congrArg Path.text hc.path_eq, by simp [hc.flags, Order.flags], ?_⟩
  rw [hlog]
  exact hstores.append _

end

/-- What is in the file of a path behind the writes of a run, in the order in which the file worker
came to them. -/
structure Contents {codec : Codec} (s₀ : Service Disk.fileSystem codec) (path : String)
    (log : List Incident) (s : Service Disk.fileSystem codec) : Prop where
  untouched : deposits s₀.files (s₀.files.locate path) log = [] →
    s.files.find? (s₀.files.locate path) = s₀.files.find? (s₀.files.locate path)
  appended : deposits s₀.files (s₀.files.locate path) log ≠ [] →
    (∀ d ∈ deposits s₀.files (s₀.files.locate path) log, d.append = true) →
      s.files.find? (s₀.files.locate path) = some (.file (s₀.files.contentAt (s₀.files.locate path) ++
        (deposits s₀.files (s₀.files.locate path) log).flatMap (·.bytes)))
  rewritten : ∀ before d after,
    deposits s₀.files (s₀.files.locate path) log = before ++ d :: after → d.append = false →
      (∀ x ∈ after, x.append = true) →
        s.files.find? (s₀.files.locate path) = some (.file (d.bytes ++ after.flatMap (·.bytes)))
  /-- The path leads there if it has done so before or has been written to. -/
  seen : (s₀.files.inspect path).isSome = true ∨ (∃ r after,
      .staged .file r after (.ok ()) ∈ log ∧ r.operation = .write ∧ r.path.text = path) →
    s.files.inspect path = s.files.find? (s₀.files.locate path)
  payloads : ∀ r after result path bytes compressed append, .staged .file r after result ∈ log →
    .entered r.id (.write path bytes compressed append) ∈ log → r.path.text = path ∧
      r.flags.contains .appendMode = append ∧ Stores s₀ log r.id bytes compressed r.payload
  turns : ∀ before r after result rest, log = before ++ .staged .file r after result :: rest →
    r.operation = .write → ∃ u v, Run s₀ before u ∧
      Run s₀ (before ++ [.staged .file r after result]) v ∧
      FileStage.WriteTurn u.files v.files r after result
  reports : ∀ id o order, .published id o ∈ log → .entered id order ∈ log →
    order.operation = .write → ∃ r after result, .staged .file r after result ∈ log ∧ r.id = id ∧
      o.size = after.size ∧ o.result = (match result with
        | .ok () => r.result
        | .error e => .error e)
  /-- The callers see these outcomes; a buffer may have been handed over. -/
  tickets : ∀ t ∈ s.tickets, ∀ left, t.outcome = some left → ∃ o, .published t.id o ∈ log ∧
    left.result = o.result ∧ left.size = o.size ∧ (left.buffer = o.buffer ∨ left.buffer = none)
  elsewhere : ∀ other, (∀ r after result, .staged .file r after result ∈ log →
    r.operation = .write → s₀.files.locate other ≠ s₀.files.locate r.path.text) →
      s.files.inspect other = s₀.files.inspect other

theorem Run.file_contents {codec : Codec} {config : Config} {heap : HeapId} {heaps : Heaps} {files : Disk}
    {codecState : codec.State} {log : List Incident} {s : Service Disk.fileSystem codec}
    {path : String} (h : Run (fresh config heap heaps files codecState) log s)
    (hp : files.Plain (files.locate path)) :
    Contents (fresh config heap heaps files codecState) path log s where
  untouched hno := (h.content hp).trans (congrArg (leftAt files _) hno)
  appended hne hall := (h.content hp).trans (leftAt_of_append hne hall)
  rewritten before d after hd happend hall :=
    ((h.content hp).trans (congrArg (leftAt files _) hd)).trans (leftAt_of_rewrite happend hall)
  seen hseen := h.path_leads hp hseen
  payloads r after result path bytes compressed append hm ho := h.brought hm ho
  turns before r after result rest hlog hop := by
    obtain ⟨u, v, staged, hu, -, hs, rfl, rfl, hv, -⟩ := h.file_cut hlog
    exact ⟨u, v, hu, hv, FileStage.run_turn hop hs⟩
  reports id o order hl ho hop := h.published_filed hl ho hop
  tickets t ht left hl := (h.desk.reflects t ht).filled left hl
  elsewhere other hno := h.elsewhere hno

/-- Three writes to a file: one in place of its content, one behind it, and one whose compression
fails. -/
def layered : List Incident × Service Disk.fileSystem (.ofPure Codec.failing) :=
  ((sampleDisk default Codec.failing).follow [.enter (.write "f" [1, 2] false false), .push 1,
    .work .file, .work .file, .work .file, .work .file, .work .file,
    .enter (.write "f" [3] false true), .push 2, .work .file, .work .file, .work .file, .work .file,
    .work .file, .enter (.write "f" [4] true true), .push 3, .work .codec, .work .codec, .work .codec,
    .work .codec, .work .file, .work .file, .work .file, .work .file, .work .file]).get (by decide)

theorem contents_layered :
    Run (sampleDisk default Codec.failing) layered.1 layered.2 ∧
      Disk.initial.Plain (Disk.initial.locate "f") ∧
      deposits Disk.initial (Disk.initial.locate "f") layered.1 =
        [⟨false, [1, 2]⟩, ⟨true, [3]⟩, ⟨true, []⟩] ∧
      layered.2.files.inspect "f" = some (.file [1, 2, 3]) ∧
      Contents (sampleDisk default Codec.failing) "f" layered.1 layered.2 := by
  have hrun : Run (sampleDisk default Codec.failing) layered.1 layered.2 := .of_isSome _
  have hplain : Disk.initial.Plain (Disk.initial.locate "f") := Disk.plain_of_none (by decide)
  exact ⟨hrun, hplain, by decide, by decide, Run.file_contents hrun hplain⟩

end Service

end QueuedFiles
