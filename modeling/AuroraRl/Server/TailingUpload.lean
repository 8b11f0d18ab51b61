import AuroraRl.Server.Engine
import AuroraRl.Server.Ranges

/-!
# Uploading a file while it is written

* `Disk` : the growing file and its done marker; `Phase` : where the client stands;
* `TailingUpload.look` : the client's operations on the disk, one at a time, so that the writer may come between;
* `TailingUpload.system` : the writer, the client and the upload's state on the server;
* `Sent` : what holds of the chunks sent, at every point of the client;
* `tailingUpload` : the chunks tile the file, the loop ends with the final file, and the server accepts it;
* `exists_run_finalize` : once the marker is there the client gets to its finalize request.
-/

namespace AuroraRl.Server.Tailing
open Transition

/-! ## Contiguous chunks -/

/-- Chunks that follow each other without a gap, the first of them at `start`. -/
def Contiguous : Nat → List ChunkWrite → Prop
  | _, [] => True
  | start, w :: ws => w.1 = start ∧ Contiguous (start + w.2.length) ws

/-- The bytes of the chunks, one chunk after the other. -/
def bytesOf (ws : List ChunkWrite) : Bytes := ws.flatMap Prod.snd

section Contiguous

variable {ws : List ChunkWrite} {w : ChunkWrite} {start : Nat} {content : Bytes}

@[simp] theorem bytesOf_nil : bytesOf [] = [] := rfl

@[simp] theorem bytesOf_cons : bytesOf (w :: ws) = w.2 ++ bytesOf ws := rfl

@[simp] theorem bytesOf_append_singleton : bytesOf (ws ++ [w]) = bytesOf ws ++ w.2 := by
  simp [bytesOf]

theorem contiguous_append_singleton (h : Contiguous start ws) (hw : w.1 = start + (bytesOf ws).length) :
    Contiguous start (ws ++ [w]) := by
  induction ws generalizing start with
  | nil => simpa [Contiguous] using hw
  | cons v ws ih =>
      refine ⟨h.1, ih h.2 ?_⟩
      rw [hw, bytesOf_cons, List.length_append]
      omega

theorem Contiguous.written_iff (h : Contiguous start ws) (i : Nat) :
    Written ws i ↔ start ≤ i ∧ i < start + (bytesOf ws).length := by
  induction ws generalizing start with
  | nil =>
      unfold Written
      simp
  | cons v ws ih =>
      obtain ⟨hv, hws⟩ := h
      have htail := ih hws
      unfold Written ChunkWrite.Covers at htail ⊢
      simp only [List.exists_mem_cons_iff, htail, bytesOf_cons, List.length_append, hv]
      omega

/-- A later chunk begins at or after the end of an earlier one. -/
theorem Contiguous.pairwise (h : Contiguous start ws) :
    ws.Pairwise (fun a b => a.1 + a.2.length ≤ b.1) ∧ ∀ w ∈ ws, start ≤ w.1 := by
  induction ws generalizing start with
  | nil => simp
  | cons v ws ih =>
      obtain ⟨hv, hws⟩ := h
      obtain ⟨hpairwise, hstart⟩ := ih hws
      refine ⟨List.pairwise_cons.2 ⟨fun w hw => ?_, hpairwise⟩, fun w hw => ?_⟩
      · have := hstart w hw
        omega
      · rcases List.mem_cons.1 hw with rfl | hw
        · omega
        · have := hstart w hw
          omega

theorem Contiguous.slices (h : Contiguous start ws) (hbytes : bytesOf ws <+: content.drop start) :
    ∀ w ∈ ws, w.SliceOf content := by
  induction ws generalizing start with
  | nil => simp
  | cons v ws ih =>
      obtain ⟨rfl, hws⟩ := h
      obtain ⟨rest, hrest⟩ := hbytes
      rw [bytesOf_cons, List.append_assoc] at hrest
      have htail : bytesOf ws <+: content.drop (v.1 + v.2.length) := by
        rw [← List.drop_drop, ← hrest, List.drop_left]
        exact List.prefix_append _ _
      intro w hw
      rcases List.mem_cons.1 hw with rfl | hw
      · unfold ChunkWrite.SliceOf
        rw [← hrest]
        exact List.prefix_append _ _
      · exact ih hws htail w hw

/-- Contiguous chunks whose bytes are the file are complete, and the assembled file is the file. -/
theorem Contiguous.assembled (h : Contiguous 0 ws) :
    uploadComplete (writtenRanges [] ws) (bytesOf ws).length = true ∧ applyWrites [] ws = bytesOf ws := by
  have hwritten : ∀ i, Written ws i ↔ i < (bytesOf ws).length := by
    intro i
    rw [h.written_iff]
    omega
  exact ⟨(uploadComplete_writtenRanges _ _).2 hwritten,
    applyWrites_of_slices (h.slices (List.prefix_refl _)) hwritten⟩

end Contiguous

/-! ## The client, the writer and the server -/

def stageUploadChunkBytes : Nat := 16 * 1024 * 1024

/-- The file that is being written, if it exists yet, and whether its done marker exists. -/
structure Disk where
  file : Option Bytes
  done : Bool

namespace Disk

/-- A missing file has no bytes. -/
def content (disk : Disk) : Bytes := disk.file.getD []

/-- The writer creates the file or appends to it. -/
def append (disk : Disk) (bytes : Bytes) : Disk := { disk with file := some (disk.content ++ bytes) }

end Disk

/-- Where `_stage_streaming_upload` stands: the operation it does next, with its local variables. -/
inductive Phase
  | start
  | init
  | loop (chunkIndex offset : Nat)
  | stat (chunkIndex offset : Nat)
  | read (chunkIndex offset toRead : Nat)
  | post (chunkIndex offset : Nat) (chunk : Bytes)
  | poll (chunkIndex offset : Nat)
  | finalExists (chunkIndex offset : Nat)
  | finalStat (chunkIndex offset : Nat)
  | sleep (chunkIndex offset : Nat)
  | after (offset : Nat)
  | size (offset : Nat)
  | hash (finalSize : Nat) (digested : Bytes)
  | finalize (finalSize : Nat) (sha256 : String)
  | finished
  | failed

/-- What the server keeps of the upload. -/
structure Received where
  ranges : List (Nat × Nat)
  content : Bytes

namespace Received

/-- What `/stage_stream_chunk` does with a chunk. -/
def write (server : Received) (offset : Nat) (chunk : Bytes) : Received where
  ranges := mergeReceivedRange server.ranges offset (offset + chunk.length)
  content := writeAt server.content offset chunk

/-- The checks of `/stage_stream_finalize` on what was received. -/
def Accepts [Host] (server : Received) (finalSize : Nat) (sha256 : String) : Prop :=
  uploadComplete server.ranges finalSize = true ∧ server.content.length = finalSize ∧
    Host.sha256 server.content = sha256

end Received

structure UploadState where
  disk : Disk
  phase : Phase
  server : Received

/-- What happens: the writer appends or leaves its marker, the client looks at the disk, or a request is answered. -/
inductive UploadEvent
  | written (bytes : Bytes)
  | marked
  | looked
  | opened (accepted : Bool)
  | posted (chunkIndex offset : Nat) (chunk : Bytes) (accepted : Bool)
  | finalized (finalSize : Nat) (sha256 : String) (accepted : Bool)

/-- A streaming upload: the size of its chunks, which `stage_weights` requires to be positive, and whether it was given
a done marker to wait for. -/
structure TailingUpload where
  chunkSizeBytes : Nat
  donePath : Bool
  chunkSizeBytes_pos : 0 < chunkSizeBytes

namespace TailingUpload

variable [Host] (U : TailingUpload)

/-- The next operation of the client that needs no answer. -/
def look (disk : Disk) : Phase → Option Phase
  | .start => if U.donePath = false ∧ disk.file = none then some .failed else some .init
  | .loop chunkIndex offset =>
    if disk.file.isSome then some (.stat chunkIndex offset) else some (.poll chunkIndex offset)
  | .stat chunkIndex offset =>
    if offset < disk.content.length then
      some (.read chunkIndex offset (min U.chunkSizeBytes (disk.content.length - offset)))
    else some (.poll chunkIndex offset)
  | .read chunkIndex offset toRead =>
    if (disk.content.drop offset).take toRead ≠ [] then
      some (.post chunkIndex offset ((disk.content.drop offset).take toRead))
    else some (.poll chunkIndex offset)
  | .poll chunkIndex offset =>
    if U.donePath = false ∨ disk.done then some (.finalExists chunkIndex offset) else some (.sleep chunkIndex offset)
  | .finalExists chunkIndex offset =>
    if disk.file.isSome then some (.finalStat chunkIndex offset)
    -- with a marker a missing file counts as empty
    else if U.donePath then some (.after offset) else some (.sleep chunkIndex offset)
  | .finalStat chunkIndex offset =>
    if disk.content.length ≤ offset then some (.after offset) else some (.sleep chunkIndex offset)
  | .sleep chunkIndex offset => some (.loop chunkIndex offset)
  | .after offset => if disk.file.isSome then some (.size offset) else some .failed
  | .size _ => some (.hash disk.content.length [])
  | .hash finalSize digested =>
    if (disk.content.drop digested.length).take stageUploadChunkBytes = [] then
      some (.finalize finalSize (Host.sha256 digested))
    else some (.hash finalSize (digested ++ (disk.content.drop digested.length).take stageUploadChunkBytes))
  | .init | .post .. | .finalize .. | .finished | .failed => none

/-- One step. A request that is not accepted raises, and the chunk in it may have been stored or not. -/
inductive Step : UploadState → UploadEvent → UploadState → Prop
  | write {s : UploadState} (bytes : Bytes) : s.disk.done = false →
      Step s (.written bytes) { s with disk := s.disk.append bytes }
  | mark {s : UploadState} : Step s .marked { s with disk := { s.disk with done := true } }
  | look {s : UploadState} {phase : Phase} : U.look s.disk s.phase = some phase →
      Step s .looked { s with phase := phase }
  | init {s : UploadState} (accepted : Bool) : s.phase = .init →
      Step s (.opened accepted) { s with phase := if accepted then .loop 0 0 else .failed }
  | post {s : UploadState} {chunkIndex offset : Nat} {chunk : Bytes} (accepted stored : Bool) :
      s.phase = .post chunkIndex offset chunk → (accepted = true → stored = true) →
      Step s (.posted chunkIndex offset chunk accepted) {
        s with
        phase := if accepted then .loop (chunkIndex + 1) (offset + chunk.length) else .failed
        server := if stored then s.server.write offset chunk else s.server }
  | finalize {s : UploadState} {finalSize : Nat} {sha256 : String} (accepted : Bool) :
      s.phase = .finalize finalSize sha256 →
      Step s (.finalized finalSize sha256 accepted) { s with phase := if accepted then .finished else .failed }

/-- An upload starts with an empty file on the server. Without a marker to wait for, it is of a finished file. -/
def Starts (s : UploadState) : Prop :=
  s.phase = .start ∧ s.server = ⟨[], []⟩ ∧ (U.donePath = false → s.disk.done = true)

def system : System UploadState UploadEvent where
  init := U.Starts
  step := U.Step

end TailingUpload

/-- The chunks that the client sent. -/
def uploads (events : List UploadEvent) : List ChunkWrite :=
  events.filterMap fun
    | .posted _ offset chunk _ => some (offset, chunk)
    | _ => none

/-- The indices that the client gave them. -/
def chunkIndices (events : List UploadEvent) : List Nat :=
  events.filterMap fun
    | .posted chunkIndex _ _ _ => some chunkIndex
    | _ => none

/-! ## What holds of the chunks sent -/

section Invariant

variable [Host] {U : TailingUpload} {s s' t : UploadState} {e : UploadEvent} {ws : List ChunkWrite} {disk : Disk}
  {server : Received} {phase phase' : Phase} {offset : Nat}

/-- The server stored the chunks, and the client counted them. -/
structure Counted (server : Received) (ws : List ChunkWrite) (chunkIndex offset : Nat) : Prop where
  server_eq : server = ⟨writtenRanges [] ws, applyWrites [] ws⟩
  index_eq : chunkIndex = ws.length
  offset_eq : offset = (bytesOf ws).length

/-- The chunks are the file, which is finished. -/
structure Whole (disk : Disk) (server : Received) (ws : List ChunkWrite) : Prop where
  server_eq : server = ⟨writtenRanges [] ws, applyWrites [] ws⟩
  bytes_eq : bytesOf ws = disk.content
  done : disk.done = true

/-- What holds where the client stands. -/
def At (disk : Disk) (server : Received) (ws : List ChunkWrite) : Phase → Prop
  | .start | .init => ws = [] ∧ server = ⟨[], []⟩
  | .loop i o | .stat i o | .poll i o | .sleep i o => Counted server ws i o
  | .read i o toRead => Counted server ws i o ∧ 0 < toRead ∧ o + toRead ≤ disk.content.length
  | .post i o chunk => Counted server ws i o ∧ chunk ≠ [] ∧ chunk <+: disk.content.drop o
  | .finalExists i o | .finalStat i o => Counted server ws i o ∧ disk.done = true
  | .after o => Whole disk server ws ∧ o = disk.content.length
  | .size o => Whole disk server ws ∧ o = disk.content.length ∧ disk.file.isSome
  | .hash finalSize digested =>
    Whole disk server ws ∧ finalSize = disk.content.length ∧ digested <+: disk.content ∧ disk.file.isSome
  | .finalize finalSize sha256 =>
    Whole disk server ws ∧ finalSize = disk.content.length ∧ sha256 = Host.sha256 disk.content ∧ disk.file.isSome
  | .finished | .failed => True

/-- What holds of the chunks `ws` sent so far. -/
structure Sent (U : TailingUpload) (s : UploadState) (ws : List ChunkWrite) : Prop where
  contiguous : Contiguous 0 ws
  nonempty : ∀ w ∈ ws, w.2 ≠ []
  bytes : bytesOf ws <+: s.disk.content
  finished : U.donePath = false → s.disk.done = true
  at_ : At s.disk s.server ws s.phase

omit [Host] in
@[simp] theorem content_append (disk : Disk) (bytes : Bytes) : (disk.append bytes).content = disk.content ++ bytes := rfl

theorem At.append (h : At disk server ws phase) (hdone : disk.done = false) (bytes : Bytes) :
    At (disk.append bytes) server ws phase := by
  cases phase with
  | read i o n =>
      obtain ⟨hcounted, hpos, hle⟩ := h
      refine ⟨hcounted, hpos, ?_⟩
      rw [content_append, List.length_append]
      omega
  | post i o chunk =>
      obtain ⟨hcounted, hne, hchunk⟩ := h
      have hlt : o < disk.content.length := by
        by_contra hge
        rw [List.drop_eq_nil_of_le (by omega), List.prefix_nil] at hchunk
        exact hne hchunk
      refine ⟨hcounted, hne, ?_⟩
      rw [content_append, List.drop_append_of_le_length (by omega)]
      exact hchunk.trans (List.prefix_append _ _)
  | finalExists i o => exact absurd h.2 (by simp [hdone])
  | finalStat i o => exact absurd h.2 (by simp [hdone])
  | after o => exact absurd h.1.done (by simp [hdone])
  | size o => exact absurd h.1.done (by simp [hdone])
  | hash n digested => exact absurd h.1.done (by simp [hdone])
  | finalize n sha256 => exact absurd h.1.done (by simp [hdone])
  | _ => exact h

theorem At.mark (h : At disk server ws phase) : At { disk with done := true } server ws phase := by
  cases phase with
  | finalExists i o => exact ⟨h.1, rfl⟩
  | finalStat i o => exact ⟨h.1, rfl⟩
  | after o => exact ⟨⟨h.1.server_eq, h.1.bytes_eq, rfl⟩, h.2⟩
  | size o => exact ⟨⟨h.1.server_eq, h.1.bytes_eq, rfl⟩, h.2⟩
  | hash n digested => exact ⟨⟨h.1.server_eq, h.1.bytes_eq, rfl⟩, h.2⟩
  | finalize n sha256 => exact ⟨⟨h.1.server_eq, h.1.bytes_eq, rfl⟩, h.2⟩
  | _ => exact h

omit [Host] in
/-- The client only leaves the loop with the whole file: the marker was seen before the size was read. -/
theorem Counted.whole {i : Nat} (h : Counted server ws i offset) (hbytes : bytesOf ws <+: disk.content)
    (hdone : disk.done = true) (hle : disk.content.length ≤ offset) :
    Whole disk server ws ∧ offset = disk.content.length := by
  have hlength := hbytes.length_le
  have hoffset := h.offset_eq
  have heq : bytesOf ws = disk.content := hbytes.eq_of_length (by omega)
  exact ⟨⟨h.server_eq, heq, hdone⟩, by omega⟩

/-- **The client's operations on the disk.** -/
theorem Sent.look (h : Sent U s ws) (hlook : U.look s.disk s.phase = some phase') :
    Sent U { s with phase := phase' } ws := by
  obtain ⟨hcontiguous, hnonempty, hbytes, hfinished, hat⟩ := h
  refine ⟨hcontiguous, hnonempty, hbytes, hfinished, ?_⟩
  obtain ⟨disk, phase, server⟩ := s
  dsimp only at hlook hbytes hfinished hat ⊢
  cases phase with
  | start =>
      simp only [TailingUpload.look] at hlook
      split at hlook
      · cases hlook
        trivial
      · cases hlook
        exact hat
  | loop i o =>
      simp only [TailingUpload.look] at hlook
      split at hlook <;> cases hlook <;> exact hat
  | stat i o =>
      simp only [TailingUpload.look] at hlook
      split at hlook
      · rename_i hlt
        cases hlook
        have hpos := U.chunkSizeBytes_pos
        exact ⟨hat, by omega, by omega⟩
      · cases hlook
        exact hat
  | read i o n =>
      obtain ⟨hcounted, hpos, hle⟩ := hat
      simp only [TailingUpload.look] at hlook
      split at hlook
      · rename_i hne
        cases hlook
        exact ⟨hcounted, hne, List.take_prefix _ _⟩
      · cases hlook
        exact hcounted
  | poll i o =>
      simp only [TailingUpload.look] at hlook
      split at hlook
      · rename_i hdone
        cases hlook
        exact ⟨hat, hdone.elim hfinished id⟩
      · cases hlook
        exact hat
  | finalExists i o =>
      obtain ⟨hcounted, hdone⟩ := hat
      simp only [TailingUpload.look] at hlook
      split at hlook
      · cases hlook
        exact ⟨hcounted, hdone⟩
      · rename_i hmissing
        split at hlook
        · cases hlook
          have hempty : disk.content.length = 0 := by
            unfold Disk.content
            rw [Option.not_isSome_iff_eq_none.1 hmissing]
            rfl
          exact hcounted.whole hbytes hdone (by omega)
        · cases hlook
          exact hcounted
  | finalStat i o =>
      obtain ⟨hcounted, hdone⟩ := hat
      simp only [TailingUpload.look] at hlook
      split at hlook
      · rename_i hle
        cases hlook
        exact hcounted.whole hbytes hdone hle
      · cases hlook
        exact hcounted
  | sleep i o =>
      cases hlook
      exact hat
  | after o =>
      obtain ⟨hwhole, hoffset⟩ := hat
      simp only [TailingUpload.look] at hlook
      split at hlook
      · rename_i hfile
        cases hlook
        exact ⟨hwhole, hoffset, hfile⟩
      · cases hlook
        trivial
  | size o =>
      obtain ⟨hwhole, -, hfile⟩ := hat
      cases hlook
      exact ⟨hwhole, rfl, List.nil_prefix, hfile⟩
  | hash n digested =>
      obtain ⟨hwhole, hsize, ⟨rest, hrest⟩, hfile⟩ := hat
      have hdrop : disk.content.drop digested.length = rest := by rw [← hrest, List.drop_left]
      simp only [TailingUpload.look, hdrop] at hlook
      split at hlook
      · rename_i hnil
        cases hlook
        have hrestNil : rest = [] := by
          rcases List.take_eq_nil_iff.1 hnil with hzero | hnil
          · exact absurd hzero (by decide)
          · exact hnil
        subst hrestNil
        rw [List.append_nil] at hrest
        exact ⟨hwhole, hsize, by rw [hrest], hfile⟩
      · cases hlook
        refine ⟨hwhole, hsize, ?_, hfile⟩
        rw [← hrest, List.prefix_append_right_inj]
        exact List.take_prefix _ _
  | _ => cases hlook

/-- A chunk from the file at the offset goes behind the chunks sent. -/
theorem Sent.post {i : Nat} {chunk : Bytes} {accepted stored : Bool} (h : Sent U s ws)
    (hphase : s.phase = .post i offset chunk)
    (hstored : accepted = true → stored = true) :
    i = ws.length ∧ Sent U {
      s with
      phase := if accepted then .loop (i + 1) (offset + chunk.length) else .failed
      server := if stored then s.server.write offset chunk else s.server } (ws ++ [(offset, chunk)]) := by
  obtain ⟨hcontiguous, hnonempty, hbytes, hfinished, hat⟩ := h
  rw [hphase] at hat
  obtain ⟨⟨hserver, hindex, hoffset⟩, hne, hchunk⟩ := hat
  refine ⟨hindex, contiguous_append_singleton hcontiguous (by omega), ?_, ?_, hfinished, ?_⟩
  · intro w hw
    rcases List.mem_append.1 hw with hw | hw
    · exact hnonempty w hw
    · rw [List.mem_singleton.1 hw]
      exact hne
  · obtain ⟨rest, hrest⟩ := hbytes
    rw [bytesOf_append_singleton, ← hrest, List.prefix_append_right_inj]
    rwa [hoffset, ← hrest, List.drop_left] at hchunk
  · cases accepted with
    | false => trivial
    | true =>
        rw [if_pos rfl, if_pos (hstored rfl)]
        refine ⟨?_, by rw [List.length_append, hindex]; rfl, by rw [bytesOf_append_singleton, List.length_append, hoffset]⟩
        rw [hserver]
        simp [Received.write, writtenRanges, applyWrites]

theorem Sent.silent (h : Sent U s ws) :
    Sent U s (ws ++ []) ∧ ([] : List Nat) = ([] : List ChunkWrite).map fun _ => ws.length := by
  rw [List.append_nil]
  exact ⟨h, rfl⟩

theorem Sent.step (h : Sent U s ws) (hstep : U.Step s e s') :
    Sent U s' (ws ++ uploads [e]) ∧ chunkIndices [e] = (uploads [e]).map fun _ => ws.length := by
  cases hstep with
  | write bytes hdone =>
      refine Sent.silent ?_
      exact ⟨h.contiguous, h.nonempty, h.bytes.trans (List.prefix_append _ _), h.finished, h.at_.append hdone bytes⟩
  | mark =>
      refine Sent.silent ?_
      exact ⟨h.contiguous, h.nonempty, h.bytes, fun _ => rfl, h.at_.mark⟩
  | look hlook =>
      refine Sent.silent ?_
      exact h.look hlook
  | init accepted hphase =>
      refine Sent.silent ?_
      obtain ⟨hcontiguous, hnonempty, hbytes, hfinished, hat⟩ := h
      rw [hphase] at hat
      obtain ⟨rfl, hserver⟩ := hat
      refine ⟨hcontiguous, hnonempty, hbytes, hfinished, ?_⟩
      cases accepted with
      | false => trivial
      | true => exact ⟨hserver, rfl, rfl⟩
  | post accepted stored hphase hstored =>
      obtain ⟨hindex, hsent⟩ := h.post hphase hstored
      exact ⟨hsent, congrArg (· :: []) hindex⟩
  | finalize accepted hphase =>
      refine Sent.silent ?_
      refine ⟨h.contiguous, h.nonempty, h.bytes, h.finished, ?_⟩
      cases accepted <;> trivial

theorem Sent.run {events : List UploadEvent} (h : U.Starts s) (hrun : U.system.Run s events t) :
    Sent U t (uploads events) ∧ chunkIndices events = List.range (uploads events).length := by
  induction hrun with
  | nil =>
      obtain ⟨hphase, hserver, hfinished⟩ := h
      refine ⟨⟨trivial, nofun, List.nil_prefix, hfinished, ?_⟩, rfl⟩
      rw [hphase]
      exact ⟨rfl, hserver⟩
  | @snoc events t t' e _ hstep ih =>
      obtain ⟨hsent, hindices⟩ := ih
      obtain ⟨hsent', hindex⟩ := hsent.step hstep
      have hsplit : uploads (events ++ [e]) = uploads events ++ uploads [e] := List.filterMap_append
      have hsplit' : chunkIndices (events ++ [e]) = chunkIndices events ++ chunkIndices [e] := List.filterMap_append
      refine ⟨hsplit ▸ hsent', ?_⟩
      rw [hsplit, hsplit', hindices, hindex, List.length_append]
      have hone : uploads [e] = [] ∨ ∃ w, uploads [e] = [w] := by cases e <;> simp [uploads]
      rcases hone with hnone | ⟨w, hw⟩
      · simp [hnone]
      · simp [hw, List.range_succ]

theorem disk_of_done {events : List UploadEvent} (hdone : s.disk.done = true) (hrun : U.system.Run s events t) :
    t.disk = s.disk := by
  refine hrun.preserves (I := fun t => t.disk = s.disk) (fun t e t' ht hstep => ?_) rfl
  have htdone : t.disk.done = true := ht ▸ hdone
  cases hstep with
  | write bytes hnot =>
      rw [htdone] at hnot
      cases hnot
  | mark =>
      rw [← ht]
      show Disk.mk t.disk.file true = t.disk
      rw [← htdone]
  | _ => exact ht

/-! ## Progress -/

/-- The client has not ended. -/
def Phase.Live : Phase → Prop
  | .finished | .failed => False
  | _ => True

/-- A bound on the steps that are left in the loop, for a file of so many bytes that is finished. -/
def Phase.rank (length : Nat) : Phase → Nat
  | .start => 11 * length + 20
  | .init => 11 * length + 19
  | .sleep _ o => inLoop o 5
  | .loop _ o => inLoop o 4
  | .stat _ o => inLoop o 3
  | .read _ o _ => inLoop o 2
  | .post _ o _ => inLoop o 1
  | .poll _ o => if o < length then inLoop o 8 else inLoop o 2
  | .finalExists _ o => if o < length then inLoop o 7 else inLoop o 1
  | .finalStat _ o => if o < length then inLoop o 6 else inLoop o 0
  | .after _ => length + 3
  | .size _ => length + 2
  | .hash _ digested => length - digested.length + 1
  | .finalize .. | .finished | .failed => 0
where
  inLoop (o n : Nat) : Nat := 10 * (length - o) + n + (length + 4)

/-- When the file is finished, the client and a server that accepts everything make progress. -/
theorem Sent.progress (h : Sent U s ws) (hdone : s.disk.done = true) (hfile : s.disk.file.isSome = true)
    (hlive : s.phase.Live) (hnot : ∀ n sha256, s.phase ≠ .finalize n sha256) :
    ∃ e s', U.Step s e s' ∧ s'.phase.Live ∧ s'.phase.rank s.disk.content.length < s.phase.rank s.disk.content.length := by
  obtain ⟨-, -, hbytes, -, hat⟩ := h
  obtain ⟨disk, phase, server⟩ := s
  dsimp only at *
  have hlook : ∀ phase', U.look disk phase = some phase' → phase'.Live →
      phase'.rank disk.content.length < phase.rank disk.content.length →
      ∃ e s', U.Step ⟨disk, phase, server⟩ e s' ∧ s'.phase.Live ∧
        s'.phase.rank disk.content.length < phase.rank disk.content.length :=
    fun phase' hnext hlive hrank => ⟨_, _, .look hnext, hlive, hrank⟩
  cases phase with
  | start =>
      have hne : ¬ (U.donePath = false ∧ disk.file = none) := by
        rintro ⟨-, hnone⟩
        simp [hnone] at hfile
      exact hlook .init (if_neg hne) trivial (by simp only [Phase.rank]; omega)
  | init =>
      refine ⟨_, _, .init true rfl, trivial, ?_⟩
      simp only [Phase.rank, Phase.rank.inLoop, if_true]
      omega
  | loop i o =>
      exact hlook (.stat i o) (if_pos hfile) trivial (by simp only [Phase.rank, Phase.rank.inLoop]; omega)
  | stat i o =>
      by_cases hlt : o < disk.content.length
      · exact hlook _ (if_pos hlt) trivial (by simp only [Phase.rank, Phase.rank.inLoop]; omega)
      · exact hlook _ (if_neg hlt) trivial (by simp only [Phase.rank, Phase.rank.inLoop, if_neg hlt]; omega)
  | read i o n =>
      obtain ⟨-, hpos, hle⟩ := hat
      have hne : (disk.content.drop o).take n ≠ [] := by
        intro hnil
        rw [List.take_eq_nil_iff, List.drop_eq_nil_iff] at hnil
        omega
      exact hlook _ (if_pos hne) trivial (by simp only [Phase.rank, Phase.rank.inLoop]; omega)
  | post i o chunk =>
      obtain ⟨-, hne, hchunk⟩ := hat
      have hpos := List.length_pos_of_ne_nil hne
      have hle := hchunk.length_le
      rw [List.length_drop] at hle
      refine ⟨_, _, .post true true rfl fun _ => rfl, trivial, ?_⟩
      simp only [Phase.rank, Phase.rank.inLoop, if_true]
      omega
  | poll i o =>
      refine hlook (.finalExists i o) (if_pos (Or.inr hdone)) trivial ?_
      simp only [Phase.rank, Phase.rank.inLoop]
      split <;> omega
  | finalExists i o =>
      refine hlook (.finalStat i o) (if_pos hfile) trivial ?_
      simp only [Phase.rank, Phase.rank.inLoop]
      split <;> omega
  | finalStat i o =>
      by_cases hle : disk.content.length ≤ o
      · refine hlook (.after o) (if_pos hle) trivial ?_
        simp only [Phase.rank, Phase.rank.inLoop]
        split <;> omega
      · refine hlook (.sleep i o) (if_neg hle) trivial ?_
        simp only [Phase.rank, Phase.rank.inLoop]
        split <;> omega
  | sleep i o =>
      exact hlook (.loop i o) rfl trivial (by simp only [Phase.rank, Phase.rank.inLoop]; omega)
  | after o => exact hlook (.size o) (if_pos hfile) trivial (by simp only [Phase.rank]; omega)
  | size o => exact hlook (.hash _ []) rfl trivial (by simp only [Phase.rank, List.length_nil]; omega)
  | hash n digested =>
      by_cases hnil : (disk.content.drop digested.length).take stageUploadChunkBytes = []
      · exact hlook _ (if_pos hnil) trivial (by simp only [Phase.rank]; omega)
      · refine hlook _ (if_neg hnil) trivial ?_
        have hpos := List.length_pos_of_ne_nil hnil
        have hle : ((disk.content.drop digested.length).take stageUploadChunkBytes).length ≤
            disk.content.length - digested.length := by
          rw [List.length_take, List.length_drop]
          omega
        simp only [Phase.rank, List.length_append]
        omega
  | finalize n sha256 => exact absurd rfl (hnot n sha256)
  | finished => cases hlive
  | failed => cases hlive

/-- Once the marker is there, the client gets to its finalize request if the server accepts the requests before. -/
theorem exists_run_finalize (h : Sent U s ws) (hdone : s.disk.done = true) (hfile : s.disk.file.isSome = true)
    (hlive : s.phase.Live) : ∃ events t n sha256, U.system.Run s events t ∧ t.phase = .finalize n sha256 := by
  induction hn : s.phase.rank s.disk.content.length using Nat.strongRecOn generalizing s ws with
  | _ n ih =>
      by_cases hfinal : ∃ size sha256, s.phase = .finalize size sha256
      · obtain ⟨size, sha256, hphase⟩ := hfinal
        exact ⟨[], s, size, sha256, .nil, hphase⟩
      · obtain ⟨e, s', hstep, hlive', hrank⟩ := h.progress hdone hfile hlive fun size sha256 heq =>
          hfinal ⟨size, sha256, heq⟩
        have hdisk : s'.disk = s.disk := disk_of_done hdone (.single hstep)
        rw [← hdisk] at hdone hfile
        obtain ⟨events, t, size, sha256, hrun, hphase⟩ :=
          ih _ (by rw [hdisk, ← hn]; exact hrank) (h.step hstep).1 hdone hfile hlive' rfl
        exact ⟨e :: events, t, size, sha256, .cons hstep hrun, hphase⟩

/-! ## The upload -/

/-- **Main.** In every run the chunks sent are numbered in order, not empty, contiguous from offset `0` and disjoint,
and their bytes are a prefix of the file; the loop ends only after the file is final, with its size as the offset and
its bytes sent; the finalize request carries the final size and checksum, and passes the server's checks; and once the
marker is there, the client can always get to that request. -/
theorem tailingUpload {events : List UploadEvent} (hstart : U.Starts s) (hrun : U.system.Run s events t) :
    (Contiguous 0 (uploads events) ∧ (uploads events).Pairwise (fun a b => a.1 + a.2.length ≤ b.1) ∧
      (∀ w ∈ uploads events, w.2 ≠ []) ∧ chunkIndices events = List.range (uploads events).length ∧
      bytesOf (uploads events) <+: t.disk.content) ∧
    (∀ offset, t.phase = .after offset → offset = t.disk.content.length ∧
      bytesOf (uploads events) = t.disk.content ∧ t.disk.done = true ∧
      ∀ events' t', U.system.Run t events' t' → t'.disk = t.disk) ∧
    (∀ n sha256, t.phase = .finalize n sha256 → t.disk.done = true ∧ ∃ content, t.disk.file = some content ∧
      n = content.length ∧ sha256 = Host.sha256 content ∧ bytesOf (uploads events) = content ∧
      t.server.Accepts n sha256) ∧
    (t.disk.done = true → t.disk.file.isSome = true → t.phase.Live →
      ∃ events' t' n sha256, U.system.Run t events' t' ∧ t'.phase = .finalize n sha256) := by
  obtain ⟨hsent, hindices⟩ := Sent.run hstart hrun
  refine ⟨⟨hsent.contiguous, hsent.contiguous.pairwise.1, hsent.nonempty, hindices, hsent.bytes⟩, ?_, ?_, ?_⟩
  · intro offset hphase
    have hat := hsent.at_
    rw [hphase] at hat
    obtain ⟨hwhole, hoffset⟩ := hat
    exact ⟨hoffset, hwhole.bytes_eq, hwhole.done, fun _ _ hrun' => disk_of_done hwhole.done hrun'⟩
  · intro n sha256 hphase
    have hat := hsent.at_
    rw [hphase] at hat
    obtain ⟨⟨hserver, hbytes, hdone⟩, hsize, hsha, hfile⟩ := hat
    obtain ⟨content, hcontent⟩ := Option.isSome_iff_exists.1 hfile
    have heq : t.disk.content = content := by
      unfold Disk.content
      rw [hcontent]
      rfl
    obtain ⟨hcomplete, hassembled⟩ := hsent.contiguous.assembled
    rw [heq] at hbytes hsize hsha
    refine ⟨hdone, content, hcontent, hsize, hsha, hbytes, ?_⟩
    rw [hserver, hsize, hsha]
    rw [hbytes] at hcomplete hassembled
    exact ⟨hcomplete, by rw [hassembled], by rw [hassembled]⟩
  · exact fun hdone hfile hlive => exists_run_finalize hsent hdone hfile hlive

end Invariant

/-! ### Three bytes, a chunk of two, one more byte and the marker -/

section Example

attribute [local instance] asciiHost

def twoByteUpload : TailingUpload := ⟨2, true, Nat.two_pos⟩

def missingFile : UploadState := ⟨⟨none, false⟩, .start, ⟨[], []⟩⟩

/-- The client has sent two bytes when the writer ends the file. -/
def markedFile : UploadState :=
  ⟨⟨some [1, 2, 3, 4], true⟩, .loop 1 2, Received.write ⟨[], []⟩ 0 [1, 2]⟩

theorem run_markedFile : ∃ events, twoByteUpload.system.Run missingFile events markedFile :=
  ⟨_, .cons (.look rfl) (.cons (.init true rfl) (.cons (.look rfl) (.cons (.write [1, 2, 3] rfl) (.cons (.look rfl)
    (.cons (.look rfl) (.cons (.look rfl) (.cons (.look rfl) (.cons (.look rfl)
      (.cons (.post true true rfl fun _ => rfl) (.cons (.write [4] rfl) (.single .mark)))))))))))⟩

theorem tailingUpload_marked : ∃ events t sha256, twoByteUpload.system.Run missingFile events t ∧
    t.phase = .finalize 4 sha256 ∧ bytesOf (uploads events) = [1, 2, 3, 4] ∧ t.server.Accepts 4 sha256 := by
  obtain ⟨events, hrun⟩ := run_markedFile
  have hstart : twoByteUpload.Starts missingFile := ⟨rfl, rfl, fun h => by cases h⟩
  obtain ⟨-, -, -, hprogress⟩ := tailingUpload hstart hrun
  obtain ⟨events', t, n, sha256, hrun', hphase⟩ := hprogress rfl rfl trivial
  obtain ⟨-, -, hfinalize, -⟩ := tailingUpload hstart (hrun.append hrun')
  obtain ⟨-, content, hcontent, rfl, -, hbytes, haccepts⟩ := hfinalize n sha256 hphase
  rw [disk_of_done rfl hrun'] at hcontent
  cases hcontent
  exact ⟨_, t, sha256, hrun.append hrun', hphase, hbytes, haccepts⟩

end Example

end AuroraRl.Server.Tailing
