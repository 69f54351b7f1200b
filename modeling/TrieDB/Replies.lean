import TrieDB.Server

/-!
The replies the workers send. `pack_ack` and `pack_cnt` lay out one frame, and
`pack_response_get` does whenever the reply fits the `length + 2` bytes it
allocates, since its `unsigned short` key lengths never exceed the keys. So
every reply a handler builds is one frame, except those of `db_handler`, the
bare name of the database, and `info_handler`, which has no length field. A run
of the server without those two requests sends frames only.
-/
namespace TrieDB

section Frames

theorem one_lt_length_encodeLength {len : Nat} (big : 128 ≤ len) : 1 < (encodeLength len).length := by
  have more : len / 128 > 0 := by omega
  have rest := List.length_pos_iff.mpr (encodeLength_go_ne_nil 3 (len / 128) (by decide))
  rw [encodeLength, maxLenBytes, encodeLength.go, if_pos more, List.length_cons]
  omega

theorem length_frame (h : UInt8) (body : List UInt8) :
    (frame h body).length = 1 + (encodeLength body.length).length + body.length := by
  simp only [frame, List.length_cons, List.length_append]
  omega

theorem length_frame_le_iff (h : UInt8) (body : List UInt8) :
    (frame h body).length ≤ body.length + 2 ↔ body.length < 128 := by
  rw [length_frame]
  constructor
  · intro fits
    by_contra big
    have := one_lt_length_encodeLength (Nat.le_of_not_lt big)
    omega
  · intro small
    rw [encodeLength_of_lt_128 small, List.length_singleton]
    omega

theorem frame_of_fits {h : UInt8} {len : Nat} {body : List UInt8} (longer : len ≤ body.length)
    (fits : (h :: encodeLength len ++ body).length ≤ len + 2) :
    h :: encodeLength len ++ body = frame h body := by
  have pos := length_encodeLength_pos len
  simp only [List.length_cons, List.length_append] at fits
  have same : body.length = len := by omega
  rw [frame, same]

theorem packAck_eq_frame (byte rc : UInt8) : packAck byte rc = frame byte [rc] := by
  simp [packAck, frame, encodeLength_of_lt_128]

theorem packCnt_eq_frame (byte : UInt8) (val : Nat) : packCnt byte val = frame byte (packi64 val) := by
  simp [packCnt, frame, packi64, encodeLength_of_lt_128]

theorem ackReplies_eq_frame (rc : UInt8) : ackReplies rc = frame Opcode.ack.toNat.toUInt8 [rc] :=
  packAck_eq_frame _ rc

end Frames

section Get

@[simp] theorem length_packi16 (val : Nat) : (packi16 val).length = 2 := rfl
@[simp] theorem length_packi32 (val : Nat) : (packi32 val).length = 4 := rfl

theorem length_packTuple (t : Tuple) : (packTuple t).length = t.key.length + t.val.length + 4 + 2 * 2 := by
  simp [packTuple, CStr.length]
  omega

/-- The `unsigned short` key lengths of a response, never more than the keys'. -/
def GetResponse.KeylensShort : GetResponse → Prop
  | .val _ t => t.keylen ≤ t.key.length
  | .tuples _ _ ts => ∀ t ∈ ts, t.keylen ≤ t.key.length

theorem tupleLength_le (t : Tuple) (short : t.keylen ≤ t.key.length) :
    tupleLength t ≤ (packTuple t).length := by
  rw [length_packTuple, tupleLength]
  omega

theorem sum_tupleLength_le (ts : List Tuple) (short : ∀ t ∈ ts, t.keylen ≤ t.key.length) :
    (ts.map tupleLength).sum ≤ ((ts.map packTuple).flatten).length := by
  induction ts with
  | nil => simp
  | cons t ts ih =>
    have head := tupleLength_le t (short t (by simp))
    have tail := ih (fun u mem => short u (by simp [mem]))
    simp only [List.map_cons, List.sum_cons, List.flatten_cons, List.length_append]
    omega

theorem packResponseGet_frame {res : GetResponse} {raw : Bstring} (short : res.KeylensShort)
    (packed : packResponseGet res = some raw) : ∃ h body, raw = frame h body := by
  cases res with
  | val header t =>
    simp only [packResponseGet, Option.ite_none_right_eq_some, Option.some.injEq] at packed
    obtain ⟨fits, rfl⟩ := packed
    simp only [List.append_assoc] at fits ⊢
    simp only [GetResponse.KeylensShort, CStr.length] at short
    exact ⟨header, _, frame_of_fits (by simp [CStr.length]; omega) fits⟩
  | tuples header tuplesLen ts =>
    simp only [packResponseGet, Option.ite_none_right_eq_some, Option.some.injEq] at packed
    obtain ⟨fits, rfl⟩ := packed
    simp only [List.append_assoc] at fits ⊢
    have sums := sum_tupleLength_le (ts.take tuplesLen)
      (fun t mem => short t (List.mem_of_mem_take mem))
    exact ⟨header, _, frame_of_fits (by simp only [List.length_append, length_packi16]; omega) fits⟩

/-- A single-value GET reply is the header, the remaining length, then the
TTL, the key length, the key and the value; past 127 bytes of body it overruns
its allocation. -/
theorem packResponseGet_val (header : UInt8) (t : Tuple) (keylen : t.keylen = t.key.length) :
    packResponseGet (.val header t) =
      if t.keylen + t.val.length + 4 + 2 < 128 then
        some (frame header (packi32 t.ttl.toUInt32.toNat ++ packi16 t.keylen ++ t.key.bytes ++ t.val.bytes))
      else none := by
  have bodyLength : (packi32 t.ttl.toUInt32.toNat ++ packi16 t.keylen ++ t.key.bytes ++
      t.val.bytes).length = t.keylen + t.val.length + 4 + 2 := by
    simp [keylen, CStr.length]
    omega
  have raw : header :: encodeLength (t.keylen + t.val.length + 4 + 2) ++ packi32 t.ttl.toUInt32.toNat ++
      packi16 t.keylen ++ t.key.bytes ++ t.val.bytes =
      frame header (packi32 t.ttl.toUInt32.toNat ++ packi16 t.keylen ++ t.key.bytes ++ t.val.bytes) := by
    rw [frame, bodyLength]
    simp only [List.cons_append, List.append_assoc]
  simp only [packResponseGet]
  rw [raw]
  have fits := length_frame_le_iff header
    (packi32 t.ttl.toUInt32.toNat ++ packi16 t.keylen ++ t.key.bytes ++ t.val.bytes)
  rw [bodyLength] at fits
  by_cases small : t.keylen + t.val.length + 4 + 2 < 128
  · rw [if_pos (fits.mpr small), if_pos small]
  · rw [if_neg (fun inside => small (fits.mp inside)), if_neg small]

theorem packResponseGet_val_short :
    packResponseGet (.val 0x20 ⟨5, 1, ⟨[97], by decide⟩, ⟨[49], by decide⟩⟩) =
      some (frame 0x20 [0, 0, 0, 5, 0, 1, 97, 49]) :=
  (packResponseGet_val 0x20 ⟨5, 1, ⟨[97], by decide⟩, ⟨[49], by decide⟩⟩ rfl).trans rfl

end Get

section Handlers

theorem putHandler_reply {s s' : Triedb} {c : Client} {now : Int} {header : UInt8} {ttl : Int32}
    {key val : CStr} {reply : Bstring} (done : putHandler s c now header ttl key val = some (s', reply)) :
    reply = ackReplies OK := by
  simp only [putHandler, Option.bind_eq_bind, Option.pure_def] at done
  obtain ⟨db, -, done⟩ := Option.bind_eq_some_iff.mp done
  split_ifs at done <;>
  · obtain ⟨_, -, done⟩ := Option.bind_eq_some_iff.mp done
    cases done
    rfl

theorem prefixTuples_short {items : SlotHeap DbItem} {v : Vector (KvObj Nat)} {ts : List Tuple}
    (built : prefixTuples items v = some ts) : ∀ t ∈ ts, t.keylen ≤ t.key.length := by
  unfold prefixTuples at built
  generalize v.items = kvs at built
  induction kvs generalizing ts with
  | nil =>
    cases built
    simp
  | cons kv kvs ih =>
    simp only [List.mapM_cons, Option.bind_eq_bind, Option.pure_def, Option.bind_eq_some_iff,
      Option.map_eq_some_iff, Option.some.injEq] at built
    obtain ⟨t, ⟨item, -, rfl⟩, rest, tail, rfl⟩ := built
    intro u mem
    rcases List.mem_cons.mp mem with rfl | later
    · exact Nat.mod_le _ _
    · exact ih tail u later

theorem packResponse_eq_some {res : GetResponse} {type : Nat} {reply : Bstring}
    (packed : packResponse res type = some reply) : packResponseGet res = some reply := by
  unfold packResponse at packed
  split_ifs at packed
  exact packed

theorem getHandler_reply {s s' : Triedb} {c : Client} {now later : Int} {header : UInt8}
    {key : CStr} {reply : Bstring} (done : getHandler s c now later header key = some (s', reply)) :
    reply = ackReplies NOK ∨ ∃ res, res.KeylensShort ∧ packResponseGet res = some reply := by
  simp only [getHandler, Option.bind_eq_bind, Option.pure_def] at done
  obtain ⟨db, -, done⟩ := Option.bind_eq_some_iff.mp done
  split_ifs at done
  · obtain ⟨found, -, done⟩ := Option.bind_eq_some_iff.mp done
    split at done
    · obtain ⟨item, -, done⟩ := Option.bind_eq_some_iff.mp done
      split_ifs at done
      · obtain ⟨_, -, done⟩ := Option.bind_eq_some_iff.mp done
        cases done
        exact .inl rfl
      · obtain ⟨packed, sent, done⟩ := Option.bind_eq_some_iff.mp done
        cases done
        exact .inr ⟨_, Nat.mod_le _ _, packResponse_eq_some sent⟩
    · cases done
      exact .inl rfl
  · obtain ⟨v, -, done⟩ := Option.bind_eq_some_iff.mp done
    obtain ⟨v, -, done⟩ := Option.bind_eq_some_iff.mp done
    obtain ⟨swept, -, done⟩ := Option.bind_eq_some_iff.mp done
    obtain ⟨tuples, built, done⟩ := Option.bind_eq_some_iff.mp done
    obtain ⟨packed, sent, done⟩ := Option.bind_eq_some_iff.mp done
    cases done
    exact .inr ⟨.tuples _ _ _, prefixTuples_short built, packResponse_eq_some sent⟩

theorem delHandler_reply {s s' : Triedb} {c : Client} {header : UInt8} {key : CStr} {reply : Bstring}
    (done : delHandler s c header key = some (s', reply)) :
    reply = ackReplies OK ∨ reply = ackReplies NOK := by
  simp only [delHandler, Option.bind_eq_bind, Option.pure_def] at done
  obtain ⟨db, -, done⟩ := Option.bind_eq_some_iff.mp done
  split_ifs at done
  · obtain ⟨_, -, done⟩ := Option.bind_eq_some_iff.mp done
    cases done
    exact .inl rfl
  · obtain ⟨⟨_, _, found⟩, -, done⟩ := Option.bind_eq_some_iff.mp done
    split_ifs at done <;> cases done
    · exact .inl rfl
    · exact .inr rfl

theorem ttlHandler_reply {s s' : Triedb} {c : Client} {now : Int} {key : CStr} {ttl : Int32}
    {reply : Bstring} (done : ttlHandler s c now key ttl = some (s', reply)) :
    reply = ackReplies OK ∨ reply = ackReplies NOK := by
  simp only [ttlHandler, Option.bind_eq_bind, Option.pure_def] at done
  obtain ⟨db, -, done⟩ := Option.bind_eq_some_iff.mp done
  split at done
  · obtain ⟨_, -, done⟩ := Option.bind_eq_some_iff.mp done
    obtain ⟨_, -, done⟩ := Option.bind_eq_some_iff.mp done
    obtain ⟨_, -, done⟩ := Option.bind_eq_some_iff.mp done
    cases done
    exact .inl rfl
  · cases done
    exact .inr rfl

theorem integerHandler_reply {num : Int32}
    {prefixMod : SlotHeap DbItem → Database → CStr → Int → Option (SlotHeap DbItem)}
    {s s' : Triedb} {c : Client} {now : Int} {header : UInt8} {key : CStr} {reply : Bstring}
    (done : integerHandler num prefixMod s c now header key = some (s', reply)) :
    reply = ackReplies OK := by
  simp only [integerHandler, Option.bind_eq_bind, Option.pure_def] at done
  obtain ⟨db, -, done⟩ := Option.bind_eq_some_iff.mp done
  split_ifs at done <;>
  · obtain ⟨_, -, done⟩ := Option.bind_eq_some_iff.mp done
    cases done
    rfl

theorem useHandler_reply {s s' : Triedb} {key : CStr} {c' : Client} {reply : Bstring}
    (done : useHandler s key = some (s', c', reply)) : reply = ackReplies OK := by
  unfold useHandler at done
  split at done
  · cases done
    rfl
  · obtain ⟨_, -, done⟩ := Option.bind_eq_some_iff.mp done
    cases done
    rfl

theorem keysHandler_reply {s : Triedb} {c : Client} {key : CStr} {reply : Bstring}
    (done : keysHandler s c key = some reply) : reply = ackReplies NOK := by
  simp only [keysHandler, Option.bind_eq_bind, Option.pure_def] at done
  obtain ⟨db, -, done⟩ := Option.bind_eq_some_iff.mp done
  obtain ⟨found, -, done⟩ := Option.bind_eq_some_iff.mp done
  split at done
  · cases done
    rfl
  · cases done

theorem cntHandler_reply {s : Triedb} {c : Client} {key : CStr} {reply : Bstring}
    (done : cntHandler s c key = some reply) : ∃ val, reply = packCnt Opcode.cnt.toNat.toUInt8 val := by
  simp only [cntHandler, Option.bind_eq_bind, Option.pure_def] at done
  obtain ⟨db, -, done⟩ := Option.bind_eq_some_iff.mp done
  cases done
  exact ⟨_, rfl⟩

theorem withClient_eq_some {c c' : Client} {r : Option (Triedb × Bstring)} {s' : Triedb}
    {reply : Bstring} (done : withClient c r = some (s', c', reply)) : r = some (s', reply) := by
  obtain ⟨⟨s₁, r₁⟩, h, same⟩ := Option.map_eq_some_iff.mp done
  cases same
  exact h

theorem frame_of_ack {reply : Bstring} {rc : UInt8} (ack : reply = ackReplies rc) :
    ∃ h body, reply = frame h body :=
  ⟨_, _, ack.trans (ackReplies_eq_frame rc)⟩

theorem frame_of_ack_or {reply : Bstring} (ack : reply = ackReplies OK ∨ reply = ackReplies NOK) :
    ∃ h body, reply = frame h body :=
  ack.elim frame_of_ack frame_of_ack

theorem handle_reply_frame {conf : Config} {infos : Informations} {s s' : Triedb} {c c' : Client}
    {now later : Int} {req : Request} {reply : Bstring}
    (done : handle conf infos s c now later req = some (s', c', reply))
    (notDb : headerOpcode req.header ≠ Opcode.db.toNat)
    (notInfo : headerOpcode req.header ≠ Opcode.info.toNat) :
    ∃ h body, reply = frame h body := by
  unfold handle at done
  split at done
  next => exact frame_of_ack (putHandler_reply (withClient_eq_some done))
  next =>
    rcases getHandler_reply (withClient_eq_some done) with nok | ⟨res, short, packed⟩
    · exact frame_of_ack nok
    · exact packResponseGet_frame short packed
  next => exact frame_of_ack_or (delHandler_reply (withClient_eq_some done))
  next => exact frame_of_ack_or (ttlHandler_reply (withClient_eq_some done))
  next => exact frame_of_ack (integerHandler_reply (withClient_eq_some done))
  next => exact frame_of_ack (integerHandler_reply (withClient_eq_some done))
  next =>
    obtain ⟨r, counted, same⟩ := Option.map_eq_some_iff.mp done
    cases same
    obtain ⟨val, rfl⟩ := cntHandler_reply counted
    exact ⟨_, _, packCnt_eq_frame _ val⟩
  next => exact frame_of_ack (useHandler_reply done)
  next =>
    obtain ⟨r, listed, same⟩ := Option.map_eq_some_iff.mp done
    cases same
    exact frame_of_ack (keysHandler_reply listed)
  next =>
    cases done
    exact frame_of_ack rfl
  next opcode _ db => exact absurd db notDb
  next opcode _ info => exact absurd info notInfo
  next => cases done

/-- The reply of `db_handler` on the fresh server is the name `"db0"`, which
no frame is: its second byte would announce 98 more bytes. -/
theorem dbHandler_reply_not_frame :
    (startServer.bind fun s => dbHandler s ⟨0⟩) = some [100, 98, 48] ∧
      ∀ h body, frame h body ≠ [100, 98, 48] := by
  refine ⟨rfl, ?_⟩
  intro h body same
  have len := congrArg List.length same
  rw [length_frame] at len
  have pos := length_encodeLength_pos body.length
  have short : body.length < 128 := by simp only [List.length_cons, List.length_nil] at len; omega
  rw [frame, encodeLength_of_lt_128 short] at same
  simp only [List.cons_append, List.cons.injEq] at same
  obtain ⟨-, byte, rfl⟩ := same
  simp at byte

end Handlers

section Runs

def FramedStep : WorkerStep → Prop
  | .request _ _ _ req =>
    headerOpcode req.header ≠ Opcode.db.toNat ∧ headerOpcode req.header ≠ Opcode.info.toNat
  | _ => True

instance : DecidablePred FramedStep := fun w =>
  match w with
  | .accept => isTrue trivial
  | .request _ _ _ _ => inferInstanceAs (Decidable (_ ∧ _))
  | .expire _ => isTrue trivial

def RepliesFramed (srv : Server) : Prop := ∀ r ∈ srv.replies, ∃ h body, r = frame h body

theorem serverStep_repliesFramed {conf : Config} {infos : Informations} {srv srv' : Server}
    {w : WorkerStep} (framedStep : FramedStep w) (framed : RepliesFramed srv)
    (step : serverStep conf infos srv w = some srv') : RepliesFramed srv' := by
  cases w with
  | accept =>
    obtain ⟨_, -, done⟩ := Option.bind_eq_some_iff.mp step
    cases done
    exact framed
  | request i now later req =>
    obtain ⟨c, -, done⟩ := Option.bind_eq_some_iff.mp step
    obtain ⟨⟨triedb, c', reply⟩, handled, done⟩ := Option.bind_eq_some_iff.mp done
    cases done
    intro r mem
    rcases List.mem_append.mp mem with old | new
    · exact framed r old
    · cases List.mem_singleton.mp new
      exact handle_reply_frame handled framedStep.1 framedStep.2
  | expire now =>
    obtain ⟨_, -, done⟩ := Option.bind_eq_some_iff.mp step
    cases done
    exact framed

/-- In every run of the server from its start without DB and INFO requests,
whatever the interleaving of connections, requests of any client and expiries,
every reply sent is one frame. -/
theorem run_replies_framed (conf : Config) (infos : Informations) (ops : List WorkerStep)
    {srv : Server} (framedSteps : ∀ w ∈ ops, FramedStep w)
    (ran : (startState.bind fun s => OpRun.run (serverStep conf infos) s ops) = some srv) :
    ∀ r ∈ srv.replies, ∃ h body, r = frame h body := by
  obtain ⟨start, started, rest⟩ := Option.bind_eq_some_iff.mp ran
  have silent : RepliesFramed start := by
    obtain ⟨_, -, rfl⟩ := Option.map_eq_some_iff.mp started
    intro r mem
    cases mem
  exact OpRun.run_preserves_of_forall (fun _ _ _ framedStep framed step =>
    serverStep_repliesFramed framedStep framed step) ops start srv framedSteps silent rest

theorem run_replies_framed_put_get :
    ∃ srv, (startState.bind fun s =>
        OpRun.run (serverStep ⟨CStr.empty, 0, 0, 0, CStr.empty, CStr.empty, CStr.empty, 0, 0, 0, 0⟩
          ⟨0, 0, 0, 0, 0, 0, 0, 0⟩) s
          [.accept, .request 0 0 0 (.put 0x10 (-1) ⟨[97], by decide⟩ ⟨[49], by decide⟩),
            .request 0 1 1 (.get 0x20 ⟨[97], by decide⟩)]) = some srv ∧
      ∀ r ∈ srv.replies, ∃ h body, r = frame h body :=
  ⟨_, rfl, run_replies_framed ⟨CStr.empty, 0, 0, 0, CStr.empty, CStr.empty, CStr.empty, 0, 0, 0, 0⟩
    ⟨0, 0, 0, 0, 0, 0, 0, 0⟩
    [.accept, .request 0 0 0 (.put 0x10 (-1) ⟨[97], by decide⟩ ⟨[49], by decide⟩),
      .request 0 1 1 (.get 0x20 ⟨[97], by decide⟩)] (by decide) rfl⟩

end Runs

/-- An INC frame that `recv_packet` accepts in full: `read_data` then calls the
NULL entry of `unpack_handlers`. -/
theorem readData_inc_frame_crashes :
    (recvPacket 16 (List.replicate 16 0) (frame 0x50 [104, 101, 108, 108, 111])).map Received.nbytes =
        some 5 ∧
      readData 16 (List.replicate 16 0) (frame 0x50 [104, 101, 108, 108, 111]) = none :=
  ⟨rfl, rfl⟩

end TrieDB
