import Refmon.DeferredLogSpecs
import Refmon.Library.Incremental
import Refmon.Memory
import Refmon.Safety

/-!
# Hashing a file chunk by chunk

`hashgen_str` and `hashgen_filecont` with the hash that the kernel's transform computes, the buffer that
the file is read to, and the one that the digits are printed to. An update with two chunks one after
the other is an update with both together, so the chunks in which a file is read do not matter: the
functions return what those that hash a whole input return.
-/

namespace Refmon

open Extents Incremental Wp

def HASH_STRING_SIZE : ℕ := 2 * SHA256_DIGEST_SIZE + 1

/-- `buf_size` of `hashgen_filecont`. -/
def BUF_SIZE : ℕ := 4096

/-- The loop of `hexconv`: `sprintf` of a byte prints two digits and a terminator. -/
def hexLoop : List UInt8 → Memory → ℕ → Memory
  | [], out, _ => out
  | byte :: rest, out, i => hexLoop rest (out.write (i * 2) (hexByte byte).mem) (i + 1)

/-- `hexconv` to a buffer. -/
def hexconvInto (hash : Digest) (out : Memory) : Memory :=
  (hexLoop hash.toList out 0).write (SHA256_DIGEST_SIZE * 2) [0]

section

variable {δ σ : Type} (env : Env δ) (h : Hasher UInt8 σ Digest)

/-- The return value of a `crypto_shash` call. An error is some number other than zero. -/
def cryptoRet : K ℤ := do
  let ok ← crypto env
  pure (if ok then 0 else -EINVAL)

/-- `shash_comp`. -/
def shashCompStream (input : List UInt8) : K (Except ℤ Digest) := do
  let ret ← cryptoRet env
  if ret ≠ 0 then pure (.error ret)
  else do
    let desc := h.init
    let ret ← cryptoRet env
    if ret ≠ 0 then pure (.error ret)
    else do
      let desc := h.update desc input
      let ret ← cryptoRet env
      if ret ≠ 0 then pure (.error ret) else pure (.ok (h.final desc))

/-- The rendering of the hash in `out`, which both functions return. -/
def hexString (hash : Digest) (out : Memory) : K CString :=
  readBuffer ((hexconvInto hash out).region HASH_STRING_SIZE)

/-- `hashgen_str`. -/
def hashgenStrStream (out : Memory) (str : CString) : K (Option CString) := do
  let allocated ← kmalloc env
  if allocated = false then throw .wildFree
  else do
    let shash ← crypto env
    if shash = false then pure none
    else do
      let desc ← kmalloc env
      if desc = false then pure none
      else do
        match ← shashCompStream env h str.bytes with
        | .error _ => pure none
        | .ok hash => do
          let text ← hexString hash out
          pure (some text)

variable (w : Worker δ)

/-- The loop of `hashgen_filecont`. The result of `kernel_read` is the length of the chunk at the start
of `buft`, and `ret` is assigned again by the update; the loop ends with the update that fails, or with
the result that is not positive and the state of the hash. -/
def Worker.updateHashStream (last : ℤ) : List (List UInt8) → Memory → σ → K (Except ℤ (ℤ × σ))
  | [], _, desc => pure (.ok (last, desc))
  | chunk :: rest, buft, desc => do
    let buft := buft.write 0 chunk
    let ret : ℤ := chunk.length
    if ret > 0 then do
      if ret > BUF_SIZE then throw .overrun
      else do
        let input := buft.region ret.toNat
        let ret ← cryptoRet w.env
        if ret ≠ 0 then pure (.error ret)
        else Worker.updateHashStream last rest buft (h.update desc input)
    else pure (.ok (ret, desc))

/-- The part of `hashgen_filecont` behind its open. -/
def Worker.hashOpenedStream (out buft : Memory) :
    Except ℤ δ × List LogDataset → K (Option CString × List LogDataset)
  | (.error _, works) => pure (none, works)
  | (.ok file, works) => do
    let (chunks, last) := w.kernelRead file
    match ← w.updateHashStream h last chunks buft h.init with
    | .error _ => pure (none, works)
    | .ok (ret, desc) =>
      if ret < 0 then pure (none, works)
      else do
        let ret ← cryptoRet w.env
        if ret ≠ 0 then pure (none, works)
        else do
          let text ← hexString (h.final desc) out
          pure (some text, works)

/-- `hashgen_filecont`, on whatever lies in the memory of its buffers. -/
def Worker.hashgenFilecontStream (out buft : Memory) (filepath : CString) :
    K (Option CString × List LogDataset) := do
  let allocated ← kmalloc w.env
  if allocated = false then throw .wildFree
  else do
    let allocated ← kmalloc w.env
    if allocated = false then throw .wildFree
    else do
      let shash ← crypto w.env
      if shash = false then throw .wildFree
      else do
        let desc ← kmalloc w.env
        if desc = false then throw .wildFree
        else do
          let ret ← cryptoRet w.env
          if ret ≠ 0 then pure (none, [])
          else do
            let opened ← w.filpOpen filepath O_RDONLY
            w.hashOpenedStream h out buft opened

end

section Hexadecimal

/-- The digits of the bytes are printed behind one another. -/
theorem hexLoop_holds (bytes : List UInt8) {out : Memory} {text : List UInt8} {i : ℕ}
    (h : Holds out 0 text) (hlength : text.length = i * 2) :
    Holds (hexLoop bytes out i) 0 (text ++ CString.bytes (bytes.flatMap hexByte)) := by
  induction bytes generalizing out text i with
  | nil =>
    rw [hexLoop, List.flatMap_nil]
    simpa [CString.bytes] using h
  | cons byte rest ih =>
    have hprinted := holds_write h (hexByte byte).mem
    rw [CString.mem, ← List.append_assoc, hlength] at hprinted
    have hnext : (text ++ (hexByte byte).bytes).length = (i + 1) * 2 := by
      rw [List.length_append, hlength, CString.length_bytes]
      change i * 2 + 2 = (i + 1) * 2
      omega
    rw [hexLoop, CString.mem, List.flatMap_cons, CString.bytes_append, ← List.append_assoc]
    exact ih hprinted.of_append hnext

/-- Two digits are printed for each byte. -/
theorem length_flatMap_hexByte (bytes : List UInt8) : (bytes.flatMap hexByte).length = bytes.length * 2 := by
  induction bytes with
  | nil => rfl
  | cons byte rest ih =>
    rw [List.flatMap_cons, List.length_append, ih, List.length_cons]
    change 2 + rest.length * 2 = (rest.length + 1) * 2
    omega

theorem length_hexconv (hash : Digest) : (hexconv hash).length = 64 := by
  rw [hexconv, length_flatMap_hexByte, Vector.length_toList]
  rfl

/-- The digits are those of the lower-case hexadecimal system. -/
theorem mem_hexconv {hash : Digest} {char : CChar} (h : char ∈ hexconv hash) :
    char ∈ lit "0123456789abcdef" := by
  obtain ⟨byte, -, hchar⟩ := List.mem_flatMap.mp h
  rw [hexByte, List.mem_cons, List.mem_singleton] at hchar
  rcases hchar with hchar | hchar
  · rw [hchar]
    exact List.get_mem _ _
  · rw [hchar]
    exact List.get_mem _ _

/-- The buffer holds the digits and their terminator. -/
theorem hexconvInto_holds (hash : Digest) (out : Memory) :
    Holds (hexconvInto hash out) 0 (hexconv hash).mem := by
  have hnothing : Holds out 0 [] := fun i hi => absurd hi (Nat.not_lt_zero i)
  have hdigits := hexLoop_holds (i := 0) hash.toList hnothing rfl
  rw [List.nil_append] at hdigits
  have hlength : (CString.bytes (hash.toList.flatMap hexByte)).length = SHA256_DIGEST_SIZE * 2 := by
    rw [CString.length_bytes]
    exact length_hexconv hash
  have hwhole := holds_write hdigits [0]
  rwa [hlength] at hwhole

/-- The functions return the digits. -/
theorem hexString_eq (hash : Digest) (out : Memory) : hexString hash out = pure (hexconv hash) := by
  have hmem : (hexconv hash).mem.length ≤ HASH_STRING_SIZE := by
    rw [CString.length_mem, length_hexconv]
    exact Nat.le_refl 65
  obtain ⟨rest, hregion⟩ := region_of_holds (hexconvInto_holds hash out) hmem
  rw [hexString, hregion, readBuffer, cstring_mem_append]

end Hexadecimal

section Refinement

variable {δ σ : Type} {env : Env δ} {h : Hasher UInt8 σ Digest} {w : Worker δ} {k : Kernel}

/-- The chunks in which a file is read: none is empty, and each fits the buffer. -/
def Chunks (chunks : List (List UInt8)) : Prop :=
  ∀ chunk ∈ chunks, 1 ≤ chunk.length ∧ chunk.length ≤ BUF_SIZE

/-- What follows a call goes on from zero or from the error. -/
theorem cryptoRet_bind {α : Type} (f : ℤ → K α) :
    (cryptoRet env >>= f) k = if env.crypto k.aux.clock then f 0 k.tick else f (-EINVAL) k.tick := by
  cases hok : env.crypto k.aux.clock with
  | false => simp [cryptoRet, crypto, ask_bind, hok]
  | true => simp [cryptoRet, crypto, ask_bind, hok]

/-- A call that cannot fail goes on. -/
theorem cryptoRet_succeeds {α : Type} (hhashes : env.Hashes) (m : ℤ → K α) (n : K α) :
    (cryptoRet env >>= fun ret => if ret ≠ 0 then m ret else n) k = n k.tick := by
  rw [cryptoRet_bind, hhashes, if_pos rfl, if_neg (not_not.mpr rfl)]

/-- The loop goes through the chunks as the function on whole inputs does, with the hash of the pieces
read so far. The induction is on the chunks; what an earlier one has left in the buffer behind the next
is not read. -/
theorem Worker.updateHashStream_run (w : Worker δ) (h : Hasher UInt8 σ Digest) (last : ℤ)
    {chunks : List (List UInt8)} (hchunks : Chunks chunks) (buft : Memory) (desc : σ) (k : Kernel) :
    w.updateHashStream h last chunks buft desc k =
      (w.updateHash chunks >>= fun updated => pure (if updated then
        Except.ok (last, chunks.foldl h.update desc) else Except.error (-EINVAL))) k := by
  induction chunks generalizing buft desc k with
  | nil => rfl
  | cons chunk rest ih =>
    obtain ⟨hpos, hfits⟩ := hchunks chunk List.mem_cons_self
    have hread : (buft.write 0 chunk).region chunk.length = chunk := (write_holds buft 0 chunk).map_range
    rw [Worker.updateHashStream, Worker.updateHash, bind_assoc, crypto, ask_bind]
    dsimp only
    rw [if_pos (by omega), if_neg (by omega), cryptoRet_bind, Int.toNat_natCast, hread]
    cases w.env.crypto k.aux.clock with
    | false => rfl
    | true => exact ih (fun chunk hmem => hchunks chunk (List.mem_cons_of_mem _ hmem)) _ _ _

/-- Behind its open, the function that reads chunk by chunk is the one on whole files. -/
theorem Worker.hashOpenedStream_eq (hstreams : h.Streams) (hsha : w.env.sha256 = h.hash) (out buft : Memory)
    {opened : Except ℤ δ × List LogDataset}
    (hchunks : ∀ file, opened.1 = .ok file → Chunks (w.kernelRead file).1) :
    w.hashOpenedStream h out buft opened = w.hashOpened opened := by
  obtain ⟨opened, works⟩ := opened
  cases opened with
  | error e => rfl
  | ok file =>
    funext k
    rw [Worker.hashOpenedStream, Worker.hashOpened]
    dsimp only
    have hloop := w.updateHashStream_run h (w.kernelRead file).2 (hchunks file rfl) buft h.init k
    cases hupdate : w.updateHash (w.kernelRead file).1 k with
    | error fault t =>
      rw [bind_of_error hupdate] at hloop
      rw [bind_of_error hloop, bind_of_error hupdate]
    | ok updated t =>
      rw [bind_of_ok hupdate] at hloop
      cases updated with
      | false =>
        rw [bind_of_ok hloop, bind_of_ok hupdate]
        rfl
      | true =>
        rw [if_pos rfl] at hloop
        rw [bind_of_ok hloop, bind_of_ok hupdate, if_neg Bool.true_eq_false.mp]
        dsimp only
        split
        · rfl
        · rw [cryptoRet_bind, crypto, ask_bind, hstreams.final_foldl, hexString_eq, hsha]
          cases w.env.crypto t.aux.clock <;> rfl

/-- `hashgen_filecont` reading chunk by chunk is the function on whole files. -/
theorem Worker.hashgenFilecontStream_eq (hstreams : h.Streams) (hsha : w.env.sha256 = h.hash)
    (hchunks : ∀ file, Chunks (w.kernelRead file).1) (out buft : Memory) (filepath : CString) :
    w.hashgenFilecontStream h out buft filepath = w.hashgenFilecont filepath := by
  refine bind_congr fun allocated => ite_congr rfl (fun _ => rfl) fun _ => ?_
  refine bind_congr fun allocated => ite_congr rfl (fun _ => rfl) fun _ => ?_
  refine bind_congr fun shash => ite_congr rfl (fun _ => rfl) fun _ => ?_
  refine bind_congr fun desc => ite_congr rfl (fun _ => rfl) fun _ => ?_
  funext k
  rw [cryptoRet_bind, crypto, ask_bind]
  cases w.env.crypto k.aux.clock with
  | false => rfl
  | true =>
    rw [if_pos rfl, if_neg (not_not.mpr rfl), if_neg Bool.true_eq_false.mp]
    refine congrFun (bind_congr fun opened => ?_) k.tick
    exact w.hashOpenedStream_eq hstreams hsha out buft fun file _ => hchunks file

/-- `hashgen_str` with the transform is the function on the hash. -/
theorem hashgenStrStream_eq (hsha : env.sha256 = h.hash) (out : Memory) (str : CString) :
    hashgenStrStream env h out str = hashgenStr env str := by
  refine bind_congr fun allocated => ite_congr rfl (fun _ => rfl) fun _ => ?_
  refine bind_congr fun shash => ite_congr rfl (fun _ => rfl) fun _ => ?_
  refine bind_congr fun desc => ite_congr rfl (fun _ => rfl) fun _ => ?_
  funext k
  rw [shashCompStream, bind_assoc, cryptoRet_bind, crypto, ask_bind]
  cases env.crypto k.aux.clock with
  | false => rfl
  | true =>
    rw [if_pos rfl, if_neg (not_not.mpr rfl), if_neg Bool.true_eq_false.mp]
    dsimp only
    rw [bind_assoc, cryptoRet_bind, ask_bind]
    cases env.crypto k.tick.aux.clock with
    | false => rfl
    | true =>
      rw [if_pos rfl, if_neg (not_not.mpr rfl), if_neg Bool.true_eq_false.mp, bind_assoc, cryptoRet_bind,
        ask_bind]
      cases env.crypto k.tick.tick.aux.clock with
      | false => rfl
      | true =>
        rw [if_pos rfl, if_neg (not_not.mpr rfl), if_neg Bool.true_eq_false.mp, pure_bind]
        dsimp only
        rw [hexString_eq, hsha]
        rfl

/-- The open of the file succeeds in this state. -/
def Worker.Opens (w : Worker δ) (core : Core) (filepath : CString) (file : δ) : Prop :=
  ∀ t, t.core = core → ∃ u, w.filpOpen filepath O_RDONLY t = .ok (.ok file, []) u

/-- The updates succeed. -/
theorem Worker.updateHash_succeeds (hhashes : w.env.Hashes) (chunks : List (List UInt8)) (k : Kernel) :
    ∃ t, w.updateHash chunks k = .ok true t := by
  induction chunks generalizing k with
  | nil => exact ⟨k, rfl⟩
  | cons chunk rest ih =>
    rw [Worker.updateHash, crypto, ask_bind, hhashes, if_neg Bool.true_eq_false.mp]
    exact ih k.tick

/-- When nothing fails behind the open, the result is the hash of what was read. -/
theorem Worker.hashOpenedStream_succeeds (hstreams : h.Streams) (hhashes : w.env.Hashes) {file : δ}
    {chunks : List (List UInt8)} (hread : w.kernelRead file = (chunks, 0)) (hchunks : Chunks chunks)
    (out buft : Memory) (works : List LogDataset) (k : Kernel) :
    ∃ t, w.hashOpenedStream h out buft (.ok file, works) k =
      .ok (some (hexconv (h.hash chunks.flatten)), works) t := by
  obtain ⟨t, hupdate⟩ := w.updateHash_succeeds hhashes chunks k
  have hloop := w.updateHashStream_run h 0 hchunks buft h.init k
  rw [bind_of_ok hupdate, if_pos rfl] at hloop
  rw [Worker.hashOpenedStream, hread]
  dsimp only
  rw [bind_of_ok hloop]
  dsimp only
  rw [if_neg (lt_irrefl _), cryptoRet_succeeds hhashes, hstreams.final_foldl, hexString_eq, pure_bind]
  exact ⟨_, rfl⟩

/-- When nothing fails, `shash_comp` computes the hash of its input. -/
theorem shashCompStream_succeeds (hhashes : env.Hashes) (input : List UInt8) (k : Kernel) :
    shashCompStream env h input k = .ok (.ok (h.hash input)) k.tick.tick.tick := by
  rw [shashCompStream, cryptoRet_succeeds hhashes, cryptoRet_succeeds hhashes, cryptoRet_succeeds hhashes]
  rfl

/-- When nothing fails, `hashgen_str` returns the hash of the string. -/
theorem hashgenStrStream_succeeds (halloc : env.Allocates) (hhashes : env.Hashes) (out : Memory)
    (str : CString) (k : Kernel) :
    returned (hashgenStrStream env h out str k) = some (some (hexconv (h.hash str.bytes))) := by
  rw [hashgenStrStream, kmalloc, ask_bind, halloc, if_neg Bool.true_eq_false.mp, crypto, ask_bind, hhashes,
    if_neg Bool.true_eq_false.mp, ask_bind, halloc, if_neg Bool.true_eq_false.mp,
    bind_of_ok (shashCompStream_succeeds hhashes str.bytes _)]
  dsimp only
  rw [hexString_eq]
  rfl

/-- However the chunks are cut in which a file is read to its end, `hashgen_filecont` returns the digits
of the hash of the whole file when nothing fails, and `hashgen_str` returns the same for a string with
this content. -/
theorem file_hash_independent (hstreams : h.Streams) (halloc : w.env.Allocates) (hhashes : w.env.Hashes)
    {filepath : CString} {file : δ} (hopens : w.Opens k.core filepath file) {chunks : List (List UInt8)}
    (hread : w.kernelRead file = (chunks, 0)) (hchunks : Chunks chunks) (out buft : Memory) :
    returned (w.hashgenFilecontStream h out buft filepath k) =
        some (some (hexconv (h.hash chunks.flatten)), []) ∧
      (hexconv (h.hash chunks.flatten)).length = 64 ∧
      (∀ char ∈ hexconv (h.hash chunks.flatten), char ∈ lit "0123456789abcdef") ∧
      ((0 : UInt8) ∉ chunks.flatten → ∃ str : CString, str.bytes = chunks.flatten ∧
        ∀ (env : Env δ) (out' : Memory) (k' : Kernel), env.Allocates → env.Hashes →
          returned (hashgenStrStream env h out' str k') = some (some (hexconv (h.hash chunks.flatten)))) := by
  refine ⟨?_, length_hexconv _, fun _ => mem_hexconv, fun hnul => ?_⟩
  · rw [Worker.hashgenFilecontStream, kmalloc, ask_bind, halloc, if_neg Bool.true_eq_false.mp, ask_bind, halloc,
      if_neg Bool.true_eq_false.mp, crypto, ask_bind, hhashes, if_neg Bool.true_eq_false.mp, ask_bind, halloc,
      if_neg Bool.true_eq_false.mp, cryptoRet_succeeds hhashes]
    obtain ⟨t, hopen⟩ := hopens k.tick.tick.tick.tick.tick rfl
    obtain ⟨u, hhashed⟩ := w.hashOpenedStream_succeeds hstreams hhashes hread hchunks out buft [] t
    rw [bind_of_ok hopen, hhashed, returned]
  · obtain ⟨str, hbytes⟩ := exists_bytes_eq hnul
    refine ⟨str, hbytes, fun env out' k' halloc' hhashes' => ?_⟩
    rw [hashgenStrStream_succeeds halloc' hhashes', hbytes]

end Refinement

section Sample

/-- A worker in the root directory, which it reads as four bytes in two chunks. -/
def ciaoWorker : Worker Unit :=
  ⟨rootOnly.calm ciaoSha256, none, fun _ _ => 0,
    fun _ => ([(lit "ci").bytes, (lit "ao").bytes], 0), fun _ _ => true, 0⟩

theorem ciaoWorker_runsIn : ciaoWorker.RunsIn rootOnly where
  sees := Vfs.calm_sees _ _
  absolute dentry path h := by
    cases h
    rfl
  allocates _ := rfl
  hashes _ := rfl

theorem ciaoWorker_opens (core : Core) : ciaoWorker.Opens core (lit "/") () := by
  intro t _
  have hfound : rootOnly.kernPath (lit "/") true = .ok () := by decide +kernel
  have hopen : Wp.wp (ciaoWorker.filpOpen (lit "/") O_RDONLY) (fun out _ => out = (.ok (), []))
      (fun _ _ => False) t := by
    apply ciaoWorker_runsIn.wp_filpOpen_found hfound fun _ => ⟨_, rfl⟩
    · intro u _ _
      rfl
    · intro u _ hdiverts
      exact absurd hdiverts (not_diverts_readOnly _ _)
  obtain ⟨out, u, hrun, rfl⟩ := wp_returns hopen
  exact ⟨u, hrun⟩

/-- The theorem on the content `ciao`, read in two chunks of two bytes. -/
theorem file_hash_independent_ciao :
    returned (ciaoWorker.hashgenFilecontStream (collecting ciaoSha256) (fun _ => 0) (fun _ => 0) (lit "/")
      (booted rootOnly)) = some (some (hexconv ciaoDigest), []) := by
  have hchunks : Chunks [(lit "ci").bytes, (lit "ao").bytes] := by
    unfold Chunks
    decide
  have hhash := (file_hash_independent (k := booted rootOnly) (collecting_streams ciaoSha256)
    ciaoWorker_runsIn.allocates ciaoWorker_runsIn.hashes (ciaoWorker_opens _) rfl hchunks (fun _ => 0)
    (fun _ => 0)).1
  rw [hhash, collecting_hash]
  decide +kernel

end Sample

end Refmon
