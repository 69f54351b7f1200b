import TrieDB.Decode

/-!
Reading requests: `recv_bytes` of `network.c`, `recv_packet` and `read_data` of
`server.c`. The client socket is non-blocking and is modelled as the queue of
bytes it has received: `read(fd, buf, n)` takes the first `min(n, available)`
of them, and fails with `EAGAIN` when none are queued. The IO buffer is the
`max_request_size` bytes `io_worker` allocates once and reuses, so what a read
does not overwrite keeps its earlier contents.
-/
namespace TrieDB

def ERRCLIENTDC : Int := 1
def ERRPACKETERR : Int := 2
def ERRMAXREQSIZE : Int := 3

/-- `read` on the socket; `none` is `EAGAIN`. -/
def sockRead (queue : List UInt8) (n : Nat) : Option (List UInt8 × List UInt8) :=
  if queue = [] then none else some (queue.take n, queue.drop n)

/-- `recv_bytes(fd, buf, bufsize)`: what it returns, the bytes it stores from
`buf` on and the bytes left queued. Every round that goes on reads a byte at
least, so `bufsize + 1` rounds reach the end of the loop. -/
def recvBytes (queue : List UInt8) (bufsize : Nat) : Int × List UInt8 × List UInt8 :=
  go (bufsize + 1) queue 0 []
where
  go : Nat → List UInt8 → Nat → List UInt8 → Int × List UInt8 × List UInt8
    | 0, queue, total, acc => (total, acc, queue)
    | fuel + 1, queue, total, acc =>
      if total < bufsize then
        match sockRead queue (bufsize - total) with
        | none => (total, acc, queue)
        | some (bytes, queue) =>
          if bytes.length = 0 then (0, acc ++ bytes, queue)
          else go fuel queue (total + bytes.length) (acc ++ bytes)
      else (total, acc, queue)

/-- The buffer with `bytes` stored from `off` on; a store past its end is
undefined. -/
def storeBytes (buf : List UInt8) (off : Nat) (bytes : List UInt8) : Option (List UInt8) :=
  if off + bytes.length ≤ buf.length then some (buf.take off ++ bytes ++ buf.drop (off + bytes.length))
  else none

/-- What `recv_packet` leaves: its result, `*header`, how far `*buf` moved, the
IO buffer and the bytes still queued. -/
structure Received where
  nbytes : Int
  header : UInt8
  offset : Nat
  buffer : List UInt8
  queue : List UInt8
  deriving DecidableEq, Repr

/-- `recv_packet(clientfd, &buffer, &header)`, with `*header` 0 as `read_data`
sets it. -/
def recvPacket (maxRequestSize : Nat) (buffer queue : List UInt8) : Option Received := do
  let (nbytes, bytes, queue) := recvBytes queue 4
  let buffer ← storeBytes buffer 0 bytes
  if nbytes ≤ 0 then return ⟨-ERRCLIENTDC, 0, 0, buffer, queue⟩
  let header ← buffer.head?
  if Opcode.info.toNat < headerOpcode header ∨ Opcode.put.toNat > headerOpcode header then
    return ⟨-ERRPACKETERR, header, 0, buffer, queue⟩
  let (tlen, pos) ← decodeLength (buffer.drop 1)
  if tlen > maxRequestSize then return ⟨-ERRMAXREQSIZE, header, pos + 1, buffer, queue⟩
  if tlen ≤ 4 then return ⟨nbytes, header, pos + 1, buffer, queue⟩
  -- `tmpbuf` has already moved past the length bytes, so the second read is
  -- stored from `1 + pos + pos + 1`; `decode_length` leaves `pos ≤ 4 < tlen`
  let (n, bytes, queue) := recvBytes queue (tlen - pos)
  let buffer ← storeBytes buffer (1 + pos + pos + 1) bytes
  if n < 0 then return ⟨nbytes, header, 0, buffer, queue⟩
  -- `n - pos - 1` is computed as an `unsigned`
  return ⟨nbytes + (n - pos - 1) % 2 ^ 32, header, pos + 1, buffer, queue⟩

/-- How `read_data` ends: a decoded request for the workers, a packet it
rejects, or the client dropped. -/
inductive ReadOutcome where
  | request (bytes : Int) (req : Request)
  | packetErr
  | dropped

/-- `read_data`, with the IO buffer and the queue it leaves. -/
def readData (maxRequestSize : Nat) (buffer queue : List UInt8) :
    Option (ReadOutcome × List UInt8 × List UInt8) := do
  let r ← recvPacket maxRequestSize buffer queue
  if r.nbytes = -ERRCLIENTDC ∨ r.nbytes = -ERRMAXREQSIZE then return (.dropped, r.buffer, r.queue)
  if r.nbytes = -ERRPACKETERR then return (.packetErr, r.buffer, r.queue)
  let req ← unpackTriedbRequest (r.buffer.drop r.offset) r.header r.nbytes.toNat
  return (.request r.nbytes req, r.buffer, r.queue)

section RecvBytes

theorem recvBytes_go_done (fuel : Nat) (queue acc : List UInt8) (bufsize total : Nat)
    (full : ¬ total < bufsize) :
    recvBytes.go bufsize fuel queue total acc = ((total : Int), acc, queue) := by
  cases fuel <;> simp [recvBytes.go, full]

theorem recvBytes_go_empty (fuel : Nat) (acc : List UInt8) (bufsize total : Nat) :
    recvBytes.go bufsize fuel [] total acc = ((total : Int), acc, []) := by
  cases fuel with
  | zero => rfl
  | succ fuel =>
    unfold recvBytes.go
    split_ifs <;> simp [sockRead]

theorem recvBytes_spec (queue : List UInt8) (bufsize : Nat) :
    recvBytes queue bufsize =
      (((min bufsize queue.length : Nat) : Int), queue.take bufsize, queue.drop bufsize) := by
  rcases Nat.eq_zero_or_pos bufsize with zero | pos
  · subst zero
    simp [recvBytes, recvBytes_go_done]
  · cases queue with
    | nil => simp [recvBytes, recvBytes_go_empty]
    | cons b rest =>
      have taken : (b :: rest).take bufsize ≠ [] := by
        cases bufsize with
        | zero => omega
        | succ n => simp
      have some_read : sockRead (b :: rest) bufsize = some ((b :: rest).take bufsize, (b :: rest).drop bufsize) := by
        simp [sockRead]
      simp only [recvBytes, recvBytes.go, pos, if_true, Nat.sub_zero, some_read,
        List.nil_append, List.length_eq_zero_iff, taken, if_false, Nat.zero_add]
      by_cases enough : bufsize ≤ (b :: rest).length
      · have full : ¬ ((b :: rest).take bufsize).length < bufsize := by simp; omega
        rw [recvBytes_go_done _ _ _ _ _ full]
        simp only [List.length_take]
      · have dry : (b :: rest).drop bufsize = [] := List.drop_eq_nil_of_le (by omega)
        rw [dry, recvBytes_go_empty]
        simp only [List.length_take]

end RecvBytes

section Frames

theorem storeBytes_of_le {buf bytes : List UInt8} {off : Nat} (room : off + bytes.length ≤ buf.length) :
    storeBytes buf off bytes = some (buf.take off ++ bytes ++ buf.drop (off + bytes.length)) := by
  simp [storeBytes, room]

theorem storeBytes_after {buf pre bytes : List UInt8}
    (room : pre.length + bytes.length ≤ buf.length) :
    storeBytes (pre ++ buf.drop pre.length) pre.length bytes =
      some (pre ++ bytes ++ buf.drop (pre.length + bytes.length)) := by
  have whole : pre.length + bytes.length ≤ (pre ++ buf.drop pre.length).length := by
    simp only [List.length_append, List.length_drop]
    omega
  rw [storeBytes_of_le whole, List.take_left, List.drop_append,
    List.drop_of_length_le (by omega), Nat.add_sub_cancel_left, List.drop_drop, List.nil_append]

theorem recvBytes_append_one (rest next : List UInt8) :
    recvBytes (rest ++ next) (rest.length + 1) =
      (((rest.length + min 1 next.length : Nat) : Int), rest ++ next.take 1, next.drop 1) := by
  rw [recvBytes_spec]
  simp only [List.length_append, Prod.mk.injEq]
  refine ⟨by omega, ?_, ?_⟩
  · rw [List.take_append, List.take_of_length_le (by omega),
      show rest.length + 1 - rest.length = 1 by omega]
  · rw [List.drop_append, List.drop_of_length_le (by omega),
      show rest.length + 1 - rest.length = 1 by omega, List.nil_append]

/-- A frame with a one-byte length of more than 4, followed on the socket by
`next`: `recv_packet` leaves `*buf` on its body, but its second read asks for one
byte more than the body has left, so it also takes the first byte of `next` and
counts it in its result. Alone on the socket, the frame is read exactly. -/
theorem recvPacket_frame_append (maxRequestSize : Nat) (buffer : List UInt8) (h : UInt8)
    (body next : List UInt8)
    (opcode : Opcode.put.toNat ≤ headerOpcode h ∧ headerOpcode h ≤ Opcode.info.toNat)
    (long : 5 ≤ body.length) (short : body.length < 128) (fits : body.length ≤ maxRequestSize)
    (room : body.length + 2 + min 1 next.length ≤ buffer.length) :
    recvPacket maxRequestSize buffer (frame h body ++ next) =
      some ⟨body.length + min 1 next.length, h, 2,
        frame h body ++ next.take 1 ++ buffer.drop (body.length + 2 + min 1 next.length),
        next.drop 1⟩ := by
  obtain ⟨b₀, b₁, rest, rfl⟩ : ∃ b₀ b₁ rest, body = b₀ :: b₁ :: rest := by
    match body, long with
    | b₀ :: b₁ :: rest, _ => exact ⟨b₀, b₁, rest, rfl⟩
  have lenByte := encodeLength_of_lt_128 short
  simp only [List.length_cons] at long short fits room lenByte ⊢
  have first : recvBytes (frame h (b₀ :: b₁ :: rest) ++ next) 4 =
      (4, [h, (rest.length + 1 + 1).toUInt8, b₀, b₁], rest ++ next) := by
    rw [recvBytes_spec]
    simp [frame, lenByte]
  have stored₁ : storeBytes buffer 0 [h, (rest.length + 1 + 1).toUInt8, b₀, b₁] =
      some (h :: (rest.length + 1 + 1).toUInt8 :: b₀ :: b₁ :: buffer.drop 4) := by
    rw [storeBytes_of_le (by simp; omega)]
    rfl
  have decoded : decodeLength ((rest.length + 1 + 1).toUInt8 :: b₀ :: b₁ :: buffer.drop 4) =
      some (rest.length + 1 + 1, 1) := by
    have fits : rest.length + 1 + 1 < 128 ^ maxLenBytes := by
      simp only [maxLenBytes]
      omega
    simpa [lenByte] using decodeLength_encodeLength_of_lt fits (b₀ :: b₁ :: buffer.drop 4)
  have second : recvBytes (rest ++ next) (rest.length + 1 + 1 - 1) =
      (((rest.length + min 1 next.length : Nat) : Int), rest ++ next.take 1, next.drop 1) := by
    rw [Nat.add_sub_cancel]
    exact recvBytes_append_one rest next
  have stored₂ : storeBytes (h :: (rest.length + 1 + 1).toUInt8 :: b₀ :: b₁ :: buffer.drop 4)
      (1 + 1 + 1 + 1) (rest ++ next.take 1) =
      some (frame h (b₀ :: b₁ :: rest) ++ next.take 1 ++
        buffer.drop (rest.length + 1 + 1 + 2 + min 1 next.length)) := by
    have took : (next.take 1).length = min 1 next.length := by simp
    have room₂ : [h, (rest.length + 1 + 1).toUInt8, b₀, b₁].length + (rest ++ next.take 1).length ≤
        buffer.length := by
      simp only [List.length_cons, List.length_nil, List.length_append, took]
      omega
    calc _ = some ([h, (rest.length + 1 + 1).toUInt8, b₀, b₁] ++ (rest ++ next.take 1) ++
            buffer.drop (4 + (rest ++ next.take 1).length)) := storeBytes_after room₂
      _ = _ := by
        rw [List.length_append, took,
          show 4 + (rest.length + min 1 next.length) = rest.length + 1 + 1 + 2 + min 1 next.length by
            omega]
        simp only [frame, lenByte, List.length_cons, List.cons_append, List.nil_append,
          List.append_assoc]
  have notHigh : ¬ (Opcode.info.toNat < headerOpcode h ∨ Opcode.put.toNat > headerOpcode h) := by
    simp only [Opcode.toNat] at opcode ⊢
    omega
  have within : ¬ rest.length + 1 + 1 > maxRequestSize := by omega
  have above : ¬ rest.length + 1 + 1 ≤ 4 := by omega
  have count : (4 : Int) + (((rest.length + min 1 next.length : Nat) : Int) - ((1 : Nat) : Int) - 1) % 2 ^ 32 =
      ((rest.length + 1 + 1 + min 1 next.length : Nat) : Int) := by
    rw [Int.emod_eq_of_lt (by omega) (by omega)]
    omega
  simp only [recvPacket, first, stored₁, Option.bind_eq_bind, Option.bind_some, List.head?_cons,
    notHigh, if_false, List.drop_succ_cons, List.drop_zero, decoded, within, above, second,
    stored₂, Int.reduceLE]
  simp only [Int.natCast_nonneg, not_lt.mpr, if_false, pure, count]
  simp only [Nat.cast_add]

theorem recvPacket_frame_append_alone :
    recvPacket 16 (List.replicate 16 0) (frame 0x20 [97, 98, 99, 100, 101] ++ []) =
      some ⟨5, 0x20, 2, frame 0x20 [97, 98, 99, 100, 101] ++ [] ++ (List.replicate 16 0).drop 7, []⟩ :=
  recvPacket_frame_append 16 _ 0x20 _ [] (by decide) (by decide) (by decide) (by decide)
    (by decide)

/-- Two one-byte `GET` frames back to back: the first `recv_packet` reads four
bytes, the first frame and the header of the second, and returns 4. -/
theorem recvPacket_short_frame_overreads :
    ∃ r, recvPacket 16 (List.replicate 16 0) (frame 0x20 [97] ++ frame 0x20 [98]) = some r ∧
      r.nbytes = 4 ∧ r.queue = [1, 98] :=
  ⟨_, rfl, rfl, rfl⟩

end Frames

/-- A request `read_data` can hand to the workers: one that
`unpack_triedb_request` decodes from some bytes. -/
def Request.Delivered (req : Request) : Prop :=
  ∃ raw len, unpackTriedbRequest raw req.header len = some req

section Delivered

variable {raw : List UInt8} {hdr : UInt8} {len : Nat} {req : Request}

theorem unpackPut_header {put : PutPacket} (decoded : unpackPut raw hdr len = some put) : put.header = hdr := by
  simp only [unpackPut, Option.bind_eq_bind, Option.bind_eq_some_iff] at decoded
  obtain ⟨fields, -, decoded⟩ := decoded
  split at decoded
  · simp only [Option.bind_eq_some_iff] at decoded
    obtain ⟨keyRoom, -, valRoom, -, strs, -, decoded⟩ := decoded
    split at decoded
    · split_ifs at decoded
      cases decoded
      rfl
    · cases decoded
  · cases decoded

theorem unpackTriedbGet_header (decoded : unpackTriedbGet raw hdr len = some req) : req.header = hdr := by
  simp only [unpackTriedbGet, Option.bind_eq_bind, Option.bind_eq_some_iff] at decoded
  obtain ⟨keyRoom, -, decoded⟩ := decoded
  split_ifs at decoded
  simp only [Option.bind_eq_some_iff] at decoded
  obtain ⟨strs, -, decoded⟩ := decoded
  split at decoded
  · split_ifs at decoded
    cases decoded
    rfl
  · cases decoded

theorem unpackTriedbAck_header (decoded : unpackTriedbAck raw hdr len = some req) : req.header = hdr := by
  simp only [unpackTriedbAck, Option.bind_eq_bind, Option.bind_eq_some_iff, Option.pure_def,
    Option.some.injEq] at decoded
  obtain ⟨bytes, -, rc, -, rfl⟩ := decoded
  rfl

theorem handler_of_unpackTriedbRequest (decoded : unpackTriedbRequest raw hdr len = some req) :
    ∃ handler, unpackHandlers[headerOpcode hdr]? = some (some handler) ∧ handler raw hdr len = some req := by
  unfold unpackTriedbRequest at decoded
  split at decoded
  · rename_i handler entry
    exact ⟨handler, entry, decoded⟩
  · cases decoded

theorem header_of_unpackTriedbRequest (decoded : unpackTriedbRequest raw hdr len = some req) :
    req.header = hdr := by
  obtain ⟨handler, entry, handled⟩ := handler_of_unpackTriedbRequest decoded
  have listed : some handler ∈ unpackHandlers := List.mem_of_getElem? entry
  simp only [unpackHandlers, List.mem_cons, Option.some.injEq, reduceCtorEq, List.not_mem_nil, or_false,
    false_or] at listed
  rcases listed with rfl | rfl | rfl | rfl | rfl | rfl
  · simp only [unpackTriedbPut, Option.map_eq_some_iff] at handled
    obtain ⟨put, unpacked, rfl⟩ := handled
    exact unpackPut_header unpacked
  all_goals first | exact unpackTriedbGet_header handled | exact unpackTriedbAck_header handled

theorem readData_delivered {maxRequestSize : Nat} {buffer queue buffer' queue' : List UInt8} {n : Int}
    (read : readData maxRequestSize buffer queue = some (.request n req, buffer', queue')) : req.Delivered := by
  simp only [readData, Option.bind_eq_bind, Option.bind_eq_some_iff] at read
  obtain ⟨r, -, read⟩ := read
  split_ifs at read
  · simp [Option.pure_def] at read
  · simp [Option.pure_def] at read
  simp only [Option.bind_eq_some_iff, Option.pure_def, Option.some.injEq, Prod.mk.injEq,
    ReadOutcome.request.injEq] at read
  obtain ⟨decodedReq, decoded, ⟨-, rfl⟩, -, -⟩ := read
  exact ⟨_, _, (header_of_unpackTriedbRequest decoded).symm ▸ decoded⟩

theorem Request.delivered_put {hdr : UInt8} {t : Int32} {key value : CStr}
    (isPut : headerOpcode hdr = Opcode.put.toNat) (keyShort : key.length < 2 ^ 16)
    (valueShort : value.length < 2 ^ 32) : (Request.put hdr t key value).Delivered :=
  ⟨_, _, unpackTriedbRequest_put_of_packed t key value hdr [] isPut keyShort valueShort⟩

theorem Request.delivered_get {hdr : UInt8} {key : CStr}
    (isGetDel : headerOpcode hdr = Opcode.get.toNat ∨ headerOpcode hdr = Opcode.del.toNat)
    (short : key.length < 10 ^ 8) : (Request.get hdr key).Delivered :=
  ⟨_, _, unpackTriedbRequest_get_of_packed key hdr [] isGetDel short⟩

theorem Request.Delivered.opcode_mem (delivered : req.Delivered) :
    headerOpcode req.header ∈ [1, 2, 3, 13, 14, 15] := by
  obtain ⟨raw, len, decoded⟩ := delivered
  obtain ⟨handler, entry, -⟩ := handler_of_unpackTriedbRequest decoded
  have bound : headerOpcode req.header < 16 := by
    have := req.header.toNat_lt
    simp only [headerOpcode]
    omega
  have entries : ∀ op < 16, (unpackHandlers[op]?.bind id).isSome → op ∈ [1, 2, 3, 13, 14, 15] := by
    decide
  apply entries _ bound
  simp [entry]

end Delivered

end TrieDB
