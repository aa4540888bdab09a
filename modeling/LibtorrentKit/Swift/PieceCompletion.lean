/-
  Piece completion from end to end: the loop of `ltkit_session_piece_completion` that sets the
  bits, the buffer, and `TorrentPieceCompletion`, which reads them.

  Both sides index bytes; `none` is an access out of range, and in the encoder also the overflow
  of `count + 7`.
-/
import LibtorrentKit.Lib.Bitset
import LibtorrentKit.Lib.Checked
import LibtorrentKit.Session.Windows
import LibtorrentKit.Swift.Arguments

namespace LibtorrentKit

open Checked

/-- The loop of `ltkit_session_piece_completion`. -/
def completedPieces (havePiece : Nat → Bool) (count : Nat) : Option Bytes := do
  let bits ← exact32 (count + 7)
  Bitset.fill havePiece (List.replicate (bits.toNat / 8) 0) (List.range count)

/-- `copy_buffer` into an `ltkit_buffer_t`, when it can allocate: the null buffer for no bytes. -/
def nativeBuffer (source : Bytes) : Option Bytes :=
  if source.isEmpty then none else some source

namespace Swift

/-- `takeData`. -/
def takeData (buffer : Option Bytes) : Option Bytes :=
  buffer.filter fun bytes => !bytes.isEmpty

structure TorrentPieceCompletion where
  pieceCount : Int
  completionBitset : Bytes
  deriving DecidableEq, Repr

/-- `ClosedRange<Int>`. -/
structure ClosedRange where
  lowerBound : Int
  upperBound : Int
  le : lowerBound ≤ upperBound

def ClosedRange.toList (range : ClosedRange) : List Int :=
  (List.range (range.upperBound - range.lowerBound + 1).toNat).map fun n : Nat =>
    range.lowerBound + n

/-- `allSatisfy`: it stops at the first element that does not. -/
def allSatisfy (predicate : Int → Option Bool) : List Int → Option Bool
  | [] => some true
  | index :: rest =>
      match predicate index with
      | some true => allSatisfy predicate rest
      | answer => answer

namespace TorrentPieceCompletion

def isComplete (completion : TorrentPieceCompletion) (index : Int) : Option Bool :=
  if 0 ≤ index ∧ index < completion.pieceCount then
    Bitset.testBit completion.completionBitset index.toNat
  else some false

def areComplete (completion : TorrentPieceCompletion) (range : ClosedRange) : Option Bool :=
  if 0 ≤ range.lowerBound ∧ range.upperBound < completion.pieceCount then
    allSatisfy completion.isComplete range.toList
  else some false

end TorrentPieceCompletion

/-- `pieceCompletion`, from the answer of the native layer on. -/
def pieceCompletion (platform : Foundation) (pieceCount : Int) (buffer : Option Bytes) :
    Except TorrentError TorrentPieceCompletion :=
  let completionBitset := (takeData buffer).getD []
  if 0 ≤ pieceCount ∧ (completionBitset.length : Int) = (pieceCount + 7) / 8 then
    .ok { pieceCount, completionBitset }
  else .error (raised platform .pieces .nativeFailure
    "The native piece completion response was malformed.")

theorem takeData_nativeBuffer (bytes : Bytes) :
    (takeData (nativeBuffer bytes)).getD [] = bytes := by
  cases bytes with
  | nil => rfl
  | cons byte rest => rfl

theorem mem_toList {range : ClosedRange} {index : Int} :
    index ∈ range.toList ↔ range.lowerBound ≤ index ∧ index ≤ range.upperBound := by
  have hle := range.le
  simp only [ClosedRange.toList, List.mem_map, List.mem_range]
  constructor
  · rintro ⟨n, hn, rfl⟩
    omega
  · intro h
    exact ⟨(index - range.lowerBound).toNat, by omega, by omega⟩

/-- `allSatisfy` of a predicate that has an answer for every element. -/
theorem allSatisfy_spec {predicate : Int → Option Bool} {p : Int → Prop} {indexes : List Int}
    (h : ∀ index ∈ indexes, ∃ b, predicate index = some b ∧ (b = true ↔ p index)) :
    ∃ b, allSatisfy predicate indexes = some b ∧ (b = true ↔ ∀ index ∈ indexes, p index) := by
  induction indexes with
  | nil => exact ⟨true, rfl, by simp⟩
  | cons index rest ih =>
    obtain ⟨⟨b, hb, hp⟩, hrest⟩ := List.forall_mem_cons.mp h
    rw [allSatisfy, hb]
    cases b with
    | true =>
      obtain ⟨b', hb', hp'⟩ := ih hrest
      exact ⟨b', hb', by rw [hp', List.forall_mem_cons, and_iff_right (hp.mp rfl)]⟩
    | false =>
      refine ⟨false, rfl, fun hb => Bool.noConfusion hb, fun hall => ?_⟩
      exact hp.mpr (hall index List.mem_cons_self)

end Swift

/-! ## The loop and the bytes of the answer -/

theorem completedPieces_spec {havePiece : Nat → Bool} {count : Nat} (h : count ≤ 2147483640) :
    ∃ bytes, completedPieces havePiece count = some bytes ∧ bytes.length = (count + 7) / 8 ∧
      ∀ k, Bitset.bit bytes k = (decide (k < count) && havePiece k) := by
  have hbits : exact32 (count + 7) = some ((count : Int) + 7) :=
    exact32_eq (by unfold Fits32; omega)
  have hlength : (((count : Int) + 7).toNat / 8) = (count + 7) / 8 := by omega
  have hempty : ∀ k, Bitset.bit (List.replicate ((count + 7) / 8) 0) k = false := by
    intro k
    by_cases hk : k / 8 < (count + 7) / 8 <;> simp [Bitset.bit, hk]
  obtain ⟨bytes, hfill, hbytes, hbit⟩ := @Bitset.fill_spec havePiece (List.range count)
    (List.replicate ((count + 7) / 8) 0) (by
      intro k hk
      rw [List.mem_range] at hk
      rw [List.length_replicate]
      omega)
  refine ⟨bytes, ?_, hbytes.trans List.length_replicate, fun k => ?_⟩
  · rw [completedPieces, hbits, ← hfill, ← hlength]
    rfl
  · rw [hbit, hempty, Bool.false_or]
    simp

/-- The bits that `completionByte` sets one after the other. -/
theorem foldl_mask_getLsbD {p : Nat → Prop} [DecidablePred p] {bits : List Nat} {byte : UInt8}
    {j : Nat} (hbits : ∀ b ∈ bits, b < 8) (hj : j < 8) :
    (bits.foldl (fun byte bit => if p bit then byte ||| (1 <<< bit.toUInt8) else byte)
      byte).toBitVec.getLsbD j = (byte.toBitVec.getLsbD j || (decide (j ∈ bits) && decide (p j))) := by
  induction bits generalizing byte with
  | nil => simp
  | cons b bits ih =>
    obtain ⟨hb, hrest⟩ := List.forall_mem_cons.mp hbits
    rw [List.foldl_cons, ih hrest]
    have hmask : (byte ||| (1 <<< b.toUInt8)).toBitVec.getLsbD j =
        (byte.toBitVec.getLsbD j || decide (j = b)) := by
      rw [UInt8.toBitVec_or, BitVec.getLsbD_or, ← Bitset.mask_getLsbD hb hj]
      rfl
    by_cases hp : p b
    · rw [if_pos hp, hmask]
      by_cases hjb : j = b <;> simp [hjb, hp]
    · rw [if_neg hp]
      by_cases hjb : j = b <;> simp [hjb, hp]

/-- The session computes what the loop does. -/
theorem completionBytes_eq {env : Environment} {handle : Handle} {count : Nat}
    (h : count ≤ 2147483640) :
    completedPieces (env.havePiece handle) count =
      some ((List.range ((count + 7) / 8)).map (Session.completionByte env handle count)) := by
  obtain ⟨bytes, hloop, hlength, hbit⟩ := @completedPieces_spec (env.havePiece handle) count h
  rw [hloop]
  refine congrArg some (Bitset.ext (by simpa using hlength) fun k => ?_)
  rw [hbit]
  by_cases hk : k / 8 < (count + 7) / 8
  · have hmod : k % 8 < 8 := Nat.mod_lt _ (by omega)
    have hkk : k / 8 * 8 + k % 8 = k := by omega
    simp only [Bitset.bit, List.getElem?_map, List.getElem?_range hk, Option.map_some,
      Option.any_some, Session.completionByte]
    rw [foldl_mask_getLsbD (fun b hb => List.mem_range.mp hb) hmod, hkk]
    simp [hmod]
  · have hcount : ¬k < count := by omega
    simp [Bitset.bit, hcount, hk]

/-- The call for an active torrent with metadata answers, if it finds a buffer for the bytes. -/
theorem completion_answers {s : Session} {env : Environment} {id : String} {value : Job}
    {info : TorrentInfo} {bytes : Bytes} (hvalue : s.jobs.lookup id = some value)
    (hactive : value.stopped = false) (hinfo : env.torrentFile value.handle = some info)
    (hcount : info.numPieces ≤ 2147483640)
    (hloop : completedPieces (env.havePiece value.handle) info.numPieces = some bytes)
    (hbuffer : copyBuffer env bytes.isEmpty = true) :
    s.ltkitSessionPieceCompletion env id =
      some (s.setJob id value, { code := .ok, output := .bitset info.numPieces bytes }) := by
  obtain rfl := Option.some.inj ((completionBytes_eq hcount).symm.trans hloop)
  unfold Session.ltkitSessionPieceCompletion Session.onActive
  rw [hvalue]
  simp only [hactive, hinfo, Bool.false_eq_true, if_false, Session.update]
  have hnothing : (s.setJob id value).performAll env id [] = some (s.setJob id value) := rfl
  rw [hnothing, Option.map_some, Session.reply, Output.isEmpty, if_pos hbuffer]

namespace Swift

/-- What Swift reads out of the answer is the set that the native layer wrote. -/
structure RoundTrip (platform : Foundation) (havePiece : Nat → Bool) (count : Nat)
    (bytes : Bytes) : Prop where
  accepted : pieceCompletion platform count (nativeBuffer bytes) = .ok ⟨count, bytes⟩
  isComplete : ∀ index : Int,
    (TorrentPieceCompletion.mk count bytes).isComplete index =
      some (decide (0 ≤ index ∧ index < count) && havePiece index.toNat)
  areComplete : ∀ range : ClosedRange, ∃ answer,
    (TorrentPieceCompletion.mk count bytes).areComplete range = some answer ∧
      (answer = true ↔ 0 ≤ range.lowerBound ∧ range.upperBound < count ∧
        ∀ index, range.lowerBound ≤ index → index ≤ range.upperBound →
          havePiece index.toNat = true)
  padding : ∀ k, count ≤ k → Bitset.bit bytes k = false

theorem isComplete_eq {havePiece : Nat → Bool} {count : Nat} {bytes : Bytes}
    (hlength : bytes.length = (count + 7) / 8)
    (hbit : ∀ k, Bitset.bit bytes k = (decide (k < count) && havePiece k)) (index : Int) :
    (TorrentPieceCompletion.mk count bytes).isComplete index =
      some (decide (0 ≤ index ∧ index < count) && havePiece index.toNat) := by
  unfold TorrentPieceCompletion.isComplete
  by_cases h : 0 ≤ index ∧ index < count
  · have hlt : index.toNat < count := by omega
    have hrange : index.toNat < 8 * bytes.length := by
      rw [hlength]
      omega
    rw [if_pos h, Bitset.testBit_eq hrange, hbit]
    simp [h, hlt]
  · rw [if_neg h]
    simp [h]

theorem areComplete_spec {havePiece : Nat → Bool} {count : Nat} {bytes : Bytes}
    (hcomplete : ∀ index : Int, (TorrentPieceCompletion.mk count bytes).isComplete index =
      some (decide (0 ≤ index ∧ index < count) && havePiece index.toNat)) (range : ClosedRange) :
    ∃ answer, (TorrentPieceCompletion.mk count bytes).areComplete range = some answer ∧
      (answer = true ↔ 0 ≤ range.lowerBound ∧ range.upperBound < count ∧
        ∀ index, range.lowerBound ≤ index → index ≤ range.upperBound →
          havePiece index.toNat = true) := by
  unfold TorrentPieceCompletion.areComplete
  by_cases h : 0 ≤ range.lowerBound ∧ range.upperBound < count
  · obtain ⟨answer, hanswer, hiff⟩ := @allSatisfy_spec
      (TorrentPieceCompletion.mk count bytes).isComplete
      (fun index => havePiece index.toNat = true) range.toList (by
        intro index hindex
        obtain ⟨hlower, hupper⟩ := mem_toList.mp hindex
        have hin : 0 ≤ index ∧ index < count := by omega
        exact ⟨_, hcomplete index, by simp [hin]⟩)
    refine ⟨answer, by rw [if_pos h, hanswer], ?_⟩
    rw [hiff, and_iff_right h.1, and_iff_right h.2]
    simp only [mem_toList, and_imp]
  · refine ⟨false, by rw [if_neg h], ?_⟩
    simp only [Bool.false_eq_true, false_iff]
    exact fun hall => h ⟨hall.1, hall.2.1⟩

theorem roundTrip_of_bits {platform : Foundation} {havePiece : Nat → Bool} {count : Nat}
    {bytes : Bytes} (hlength : bytes.length = (count + 7) / 8)
    (hbit : ∀ k, Bitset.bit bytes k = (decide (k < count) && havePiece k)) :
    RoundTrip platform havePiece count bytes := by
  have hcomplete := isComplete_eq hlength hbit
  refine ⟨?_, hcomplete, areComplete_spec hcomplete, fun k hk => ?_⟩
  · unfold pieceCompletion
    rw [takeData_nativeBuffer, if_pos ⟨by omega, by omega⟩]
  · rw [hbit, decide_eq_false (by omega), Bool.false_and]

/-- Piece completion round-trips: the loop stays within its bytes, the call for an active torrent
with metadata answers with them, and Swift accepts the answer and reads the same pieces out of it,
whatever it is asked for. -/
theorem pieceCompletion_roundTrips (platform : Foundation) (havePiece : Nat → Bool) (count : Nat)
    (hcount : count ≤ 2147483640) :
    ∃ bytes, completedPieces havePiece count = some bytes ∧
      RoundTrip platform havePiece count bytes ∧
      ∀ (s : Session) (env : Environment) (id : String) (value : Job) (info : TorrentInfo),
        s.jobs.lookup id = some value → env.torrentFile value.handle = some info →
        info.numPieces = count → env.havePiece value.handle = havePiece →
        (value.stopped = false → copyBuffer env bytes.isEmpty = true →
          ∃ s', s.ltkitSessionPieceCompletion env id =
            some (s', { code := .ok, output := .bitset count bytes })) ∧
        ∀ (s' : Session) (response : Response),
          s.ltkitSessionPieceCompletion env id = some (s', response) → response.code = .ok →
            response.output = .bitset count bytes := by
  obtain ⟨bytes, hloop, hlength, hbit⟩ := @completedPieces_spec havePiece count hcount
  refine ⟨bytes, hloop, roundTrip_of_bits hlength hbit, ?_⟩
  rintro s env id value info hvalue hinfo rfl rfl
  refine ⟨fun hactive hbuffer => ⟨_, completion_answers hvalue hactive hinfo hcount hloop hbuffer⟩,
    fun s' response hcall hok => ?_⟩
  obtain ⟨value₀, output, hvalue₀, hanswer, -, houtput⟩ := Session.onActive_ok (by
    intro value code safeMessage hfail
    split at hfail
    · cases hfail
      decide
    · cases hfail) hcall hok
  obtain rfl := Option.some.inj (hvalue.symm.trans hvalue₀)
  rw [hinfo] at hanswer
  cases hanswer
  rw [houtput, Option.some.inj ((completionBytes_eq hcount).symm.trans hloop)]

/-- Nine pieces, the first and the last of them complete. -/
def ninePieces : Environment :=
  { sampleEnvironment with
    torrentFile := fun _ => some { sampleInfo with numPieces := 9 }
    havePiece := fun _ k => k == 0 || k == 8 }

theorem ninePieces_roundTrip :
    9 ≤ 2147483640 ∧ completedPieces (fun k => k == 0 || k == 8) 9 = some [1, 1] ∧
      RoundTrip TorrentError.codePoints (fun k => k == 0 || k == 8) 9 [1, 1] ∧
      ∃ s', (Session.setJob {} "a" { handle := 1 }).ltkitSessionPieceCompletion ninePieces "a" =
        some (s', { code := .ok, output := .bitset 9 [1, 1] }) := by
  obtain ⟨bytes, hloop, hround, hcall⟩ := pieceCompletion_roundTrips TorrentError.codePoints
    (fun k => k == 0 || k == 8) 9 (by decide)
  have hbytes : completedPieces (fun k => k == 0 || k == 8) 9 = some [1, 1] := by decide
  obtain rfl := Option.some.inj (hloop.symm.trans hbytes)
  have hjob : (Session.setJob {} "a" { handle := 1 }).jobs.lookup "a" = some { handle := 1 } :=
    Finmap.lookup_insert _
  exact ⟨by decide, hbytes, hround,
    (hcall _ ninePieces "a" _ _ hjob rfl rfl rfl).1 rfl (by decide)⟩

end Swift

end LibtorrentKit
