import QueuedFiles.Proofs.Script
import QueuedFiles.Proofs.Service.Numbering
import QueuedFiles.Proofs.Service.Shape
import QueuedFiles.Proofs.Service.Sources

/-!
The file stage of a read, whatever the calls answer that it makes: what it has read, where it has put
it, and what the heaps count of it.
-/

namespace QueuedFiles

/-- The path opens; the file has this size when it is asked for, and this is how it answers the calls
that read it then. -/
def Scripted (fs : FileSystem) (files : fs.State) (path : Path) (size : Nat)
    (script : List ReadEvent) : Prop :=
  ∃ native handle opened sized rest, path.native = .ok native ∧
    fs.openToRead files native = (.ok handle, opened) ∧ fs.size opened handle = (.ok size, sized) ∧
    fs.read sized handle = (script, rest)

namespace Reference

variable {fs : FileSystem} {files : fs.State} {path : Path} {size : Nat} {script : List ReadEvent}

theorem readFile_scripted (h : Scripted fs files path size script) :
    (readFile fs files path).1 = match QueuedFiles.readFull size script with
      | .error fault => .error (.file .reading path.text fault)
      | .ok data => .ok data := by
  obtain ⟨native, handle, opened, sized, rest, hnative, hopen, hsize, hread⟩ := h
  simp only [readFile, name_eq, content_eq, hnative, hopen, hsize, hread]
  cases QueuedFiles.readFull size script <;> rfl

theorem readFile_unscripted (h : ∀ size script, ¬ Scripted fs files path size script) :
    ∃ e, (readFile fs files path).1 = .error e := by
  cases hnative : path.native with
  | error e => exact ⟨e, by simp [readFile, name_eq, hnative]⟩
  | ok native =>
    rcases hopen : fs.openToRead files native with ⟨answer, opened⟩
    cases answer with
    | error fault =>
      exact ⟨.file .opening path.text fault, by simp [readFile, name_eq, hnative, hopen]⟩
    | ok handle =>
      rcases hsize : fs.size opened handle with ⟨answer, sized⟩
      cases answer with
      | error fault =>
        exact ⟨.file .sizeQuery path.text fault,
          by simp [readFile, name_eq, hnative, hopen, hsize]⟩
      | ok size =>
        exact absurd ⟨native, handle, opened, sized, _, hnative, hopen, hsize, rfl⟩ (h size _)

end Reference

namespace FileStage

variable {fs : FileSystem} {files after : fs.State} {heaps : Heaps} {r : Request} {staged : Staged}
  {size : Nat} {script : List ReadEvent}

theorem run_scripted (hop : r.operation = .read) (hs : run fs files heaps r = (staged, after))
    (h : Scripted fs files r.path size script) :
    match readFull size script with
    | .error fault => staged.result = .error (.file .reading r.path.text fault)
    | .ok data => staged.result = .ok () ∧ staged.request.size = data.length ∧
        ∃ b, staged.request.buffer = some b ∧
          b.bytes = if r.flags.contains .nullTerminate then data ++ [Limits.terminator] else data := by
  obtain ⟨-, hread⟩ := read_eq files heaps r
  rw [run_of_read hop] at hs
  rw [hs, Reference.readFile_scripted h] at hread
  cases hfull : readFull size script with
  | error fault =>
    rw [hfull] at hread
    exact hread.1
  | ok data =>
    rw [hfull] at hread
    obtain ⟨hresult, b, hrequest, hbytes⟩ := hread
    exact ⟨hresult, by rw [hrequest], b, by rw [hrequest], hbytes⟩

theorem run_breaks (hop : r.operation = .read) (hs : run fs files heaps r = (staged, after))
    (h : Scripted fs files r.path size script) (fault : Fault) :
    staged.result = .error (.file .reading r.path.text fault) ↔ BreaksOff size script fault := by
  have hrun := run_scripted hop hs h
  rw [← readFull_eq_error_iff]
  cases hfull : readFull size script with
  | error f =>
    rw [hfull] at hrun
    simp [hrun]
  | ok data =>
    rw [hfull] at hrun
    simp [hrun.1]

theorem run_unscripted (hop : r.operation = .read) (hs : run fs files heaps r = (staged, after))
    (h : ∀ size script, ¬ Scripted fs files r.path size script) : ∃ e, staged.result = .error e := by
  obtain ⟨e, he⟩ := Reference.readFile_unscripted h
  obtain ⟨-, hread⟩ := read_eq files heaps r
  rw [run_of_read hop] at hs
  rw [hs, he] at hread
  exact ⟨e, hread.1⟩

/-- What the heaps count behind a read of a request that has no buffer yet. -/
theorem read_stats (hn : heaps.Numbered) (hh : heaps.has r.heap = true) (hb : r.buffer = none)
    (hs : read fs files heaps r = (staged, after)) (k : HeapId) :
    match staged.result with
    | .error _ => staged.heaps.stats k = heaps.stats k
    | .ok () => ∀ b, staged.request.buffer = some b → b.heap = r.heap ∧ staged.heaps.stats k =
        if k = r.heap then
          ⟨(heaps.stats r.heap).allocations + 1, b.length + (heaps.stats r.heap).bytes⟩
        else heaps.stats k := by
  have filled : ∀ room bytes b,
      some ((heaps.reserve r.heap room).2.fill (heaps.reserve r.heap room).1 bytes).1 = some b →
      b.heap = r.heap ∧ (((heaps.reserve r.heap room).2.fill (heaps.reserve r.heap room).1
        bytes).2.releaseOption r.buffer).stats k =
          if k = r.heap then
            ⟨(heaps.stats r.heap).allocations + 1, b.length + (heaps.stats r.heap).bytes⟩
          else heaps.stats k := by
    intro room bytes b hfilled
    obtain rfl := Option.some.inj hfilled
    rw [hb]
    exact ⟨rfl, hn.stats_filled hh room bytes k⟩
  simp only [read] at hs
  repeat' split at hs
  all_goals obtain ⟨rfl, -⟩ := Prod.mk.inj hs
  all_goals first
    | rfl
    | exact hn.stats_cancelled ..
    | exact filled _ _

end FileStage

/-- One file that has a size and answers reads by a script, and no other calls. -/
def FileSystem.playing (size : Nat) (script : List ReadEvent) : FileSystem where
  State := Unit
  Handle := Unit
  openToRead _ _ := (.ok (), ())
  size _ _ := (.ok size, ())
  read _ _ := (script, ())
  isExtensible _ _ := (true, ())
  openToWrite _ _ _ := (.ok (), ())
  seekEnd _ _ := (.ok (), ())
  write _ _ _ := (.ok (), ())

namespace Service

variable {fs : FileSystem} {codec : Codec} {s t : Service fs codec} {log : List Incident}
  {r after : Request} {result : Except Error Unit} {config : Config} {heap : HeapId} {heaps : Heaps}
  {files : fs.State} {codecState : codec.State}

/-- What a read is behind its file stage. -/
structure ReadStage (s : Service fs codec) (r : Request) (t : Service fs codec) (after : Request)
    (result : Except Error Unit) : Prop where
  /-- What is said of scripts here, as of what comes of any script in any room. -/
  loop : ∀ room script, Fills room script
  breaks : ∀ size script fault, Scripted fs s.files r.path size script →
    (result = .error (.file .reading r.path.text fault) ↔ BreaksOff size script fault)
  fetched : ∀ size script, Scripted fs s.files r.path size script →
    (∀ fault, ¬ BreaksOff size script fault) → result = .ok () ∧
      ∃ k b, k = min size (delivered script).length ∧ after.size = k ∧ after.buffer = some b ∧
        b.bytes = (delivered script).take k ++
          (if r.flags.contains .nullTerminate then [Limits.terminator] else []) ∧
        b.heap = r.heap ∧ ∀ j, t.heaps.stats j =
          if j = r.heap then
            ⟨(s.heaps.stats r.heap).allocations + 1, b.length + (s.heaps.stats r.heap).bytes⟩
          else s.heaps.stats j
  unscripted : (∀ size script, ¬ Scripted fs s.files r.path size script) → ∃ e, result = .error e
  failed : ∀ e, result = .error e →
    after.buffer = none ∧ after.size = 0 ∧ ∀ j, t.heaps.stats j = s.heaps.stats j

theorem Run.read_stage (h : Run (fresh config heap heaps files codecState) log s)
    (hheap : heaps.has heap = true) (hnumbered : heaps.Numbered)
    (hw : s.worker .file = .serving r) (hop : r.operation = .read) :
    ∃ t after result, s.step (.work .file) = some t ∧
      s.record (.work .file) = [.staged .file r after result] ∧ ReadStage s r t after result := by
  have hat : s.At r (.hand .file .serving) := hw
  have hhas : s.heaps.has r.heap = true := h.has_heap hheap hat
  have hkept : s.heaps.Numbered := h.keeps_numbers hnumbered
  rcases hs : FileStage.run fs s.files s.heaps r with ⟨staged, behind⟩
  obtain ⟨hclean, hbare⟩ := h.fetching_at_stage (.file hw hs) hop
  have hstats := FileStage.read_stats hkept hhas (hbare rfl)
    ((FileStage.run_of_read hop).symm.trans hs)
  obtain ⟨-, -, -, -, hbuffer, hsize, -⟩ := staged.routed_frame .file
  have hstep : s.step (.work .file) = some (s.serveFile r) := by
    change s.work .file = _
    rw [Service.work, hw]
  have hheaps : (s.serveFile r).heaps = staged.heaps := by rw [serveFile, finish_heaps, hs]
  refine ⟨s.serveFile r, staged.routed .file, staged.result, hstep, ?_, ?_⟩
  · simp [record, recordWork, recordStage, stage?, hw, hs]
  · refine ⟨readFull_fills, fun size script fault hscript ↦ FileStage.run_breaks hop hs hscript fault,
      ?_, FileStage.run_unscripted hop hs, ?_⟩
    · intro size script hscript hfills
      have hrun := FileStage.run_scripted hop hs hscript
      rw [readFull_of_not_breaksOff hfills] at hrun
      obtain ⟨hok, hlength, b, hb, hbytes⟩ := hrun
      simp only [hok] at hstats
      refine ⟨hok, _, b, rfl, ?_, hbuffer.trans hb, ?_, (hstats 0 b hb).1, ?_⟩
      · rw [hsize, hlength, List.length_take]
      · rw [hbytes, List.take_eq_take_min]
        split <;> simp
      · intro j
        rw [hheaps]
        exact (hstats j b hb).2
    · intro e he
      have hsame := (FileStage.read_failed hop hs he).2
      simp only [he] at hstats
      refine ⟨by rw [hbuffer, hsame, hbare rfl], ?_, fun j ↦ by rw [hheaps, hstats j]⟩
      rw [hsize, hsame, (h.sized hat).bare (hbare rfl)]

/-- Three bytes in pieces; one call is broken off. -/
def pieces : List ReadEvent := [.bytes [1], .interrupted, .bytes [2, 3], .bytes []]

/-- A read, up to its file stage, of a file that has lost two bytes since its size was asked for. -/
def shrunk : List Incident × Service (.playing 5 pieces) (.ofPure .verbatim) :=
  ((fresh default 0 (Heaps.empty.create "").2 () ()).follow [.enter (.read "f" 0 true false), .push 1,
    .work .file]).get (by decide)

theorem read_stage_shrunk :
    Run (fresh default 0 (Heaps.empty.create "").2 () ()) shrunk.1 shrunk.2 ∧
      (Heaps.empty.create "").2.has 0 = true ∧ (Heaps.empty.create "").2.Numbered ∧
      ∃ r t after result, shrunk.2.worker .file = .serving r ∧ r.operation = .read ∧
        shrunk.2.step (.work .file) = some t ∧ ReadStage shrunk.2 r t after result ∧
        result = .ok () ∧ after.size = 3 ∧ after.buffer.map (·.bytes) = some [1, 2, 3, 0] ∧
        t.heaps.stats 0 = ⟨1, 4⟩ := by
  have hrun : Run (fresh default 0 (Heaps.empty.create "").2 () ()) shrunk.1 shrunk.2 := .of_isSome _
  have hnumbered := Heaps.numbered_empty.create ""
  obtain ⟨t, after, result, hstep, -, hstage⟩ := Run.read_stage hrun rfl hnumbered rfl rfl
  refine ⟨hrun, rfl, hnumbered, _, t, after, result, rfl, rfl, hstep, hstage, ?_⟩
  have hscript : Scripted (.playing 5 pieces) () ⟨"f"⟩ 5 pieces :=
    ⟨"f", (), (), (), (), by decide, rfl, rfl, rfl⟩
  have hfills : ∀ fault, ¬ BreaksOff 5 pieces fault := by
    intro fault hbreaks
    cases readFull_eq_error_iff.2 hbreaks
  obtain ⟨hok, k, b, rfl, hsize, hb, hbytes, -, hstats⟩ := hstage.fetched 5 pieces hscript hfills
  have hlength : b.length = 4 := congrArg List.length hbytes
  refine ⟨hok, hsize, by rw [hb, Option.map_some, hbytes]; rfl, ?_⟩
  have hcount := hstats 0
  rw [hlength] at hcount
  exact hcount

end Service

end QueuedFiles
