import Acutance.Codec.Flate.Zlib
import Mathlib.Algebra.Group.Nat.Defs

namespace Acutance.Codec.Flate

/-- Bits are read from the low part of a number alone, if they end in it. -/
theorem low_bits (low high : Nat) {offset count size : Nat} (h : offset + count ≤ size) :
    (low + 2 ^ size * high) / 2 ^ offset % 2 ^ count = low / 2 ^ offset % 2 ^ count := by
  have hpow : 2 ^ size = 2 ^ offset * (2 ^ count * 2 ^ (size - offset - count)) := by
    rw [← Nat.pow_add, ← Nat.pow_add]
    congr 1
    omega
  rw [hpow, Nat.mul_assoc, Nat.mul_assoc, Nat.add_mul_div_left _ _ (Nat.two_pow_pos offset),
    Nat.add_mul_mod_self_left]

namespace Stream

/-- The next bit begins a byte, and these bytes are there and not taken. -/
structure Ahead (s : Stream) (bytes : Bytes) : Prop where
  aligned : s.taken % 8 = 0
  rest_eq : s.input.toList.drop (s.taken / 8) = bytes

namespace Ahead

variable {s : Stream} {bytes front rest : Bytes}

private theorem available_eq (h : s.Ahead bytes) : s.available = 8 * bytes.length := by
  have haligned := h.aligned
  have hlength := congrArg List.length h.rest_eq
  rw [List.length_drop, Array.length_toList] at hlength
  unfold available
  omega

private theorem getD_eq (h : s.Ahead bytes) (i : Nat) :
    s.input.getD (s.taken / 8 + i) 0 = bytes.getD i 0 := by
  rw [← h.rest_eq, List.getD_eq_getElem?_getD, List.getElem?_drop, Array.getElem?_toList,
    Array.getD_eq_getD_getElem?]

private theorem byteAt_eq (h : s.Ahead bytes) (i : Nat) :
    s.byteAt (s.taken / 8 + i) = (bytes.getD i 0).toNat := by
  rw [byteAt, h.getD_eq]

private theorem padding_eq (h : s.Ahead bytes) (offset : Nat) :
    s.padding offset = (8 - offset % 8) % 8 := by
  have haligned := h.aligned
  unfold padding
  omega

private theorem skip (h : s.Ahead (front ++ rest)) : (s.skip (8 * front.length)).Ahead rest where
  aligned := by
    have haligned := h.aligned
    change (s.taken + 8 * front.length) % 8 = 0
    omega
  rest_eq := by
    change s.input.toList.drop ((s.taken + 8 * front.length) / 8) = rest
    rw [Nat.add_mul_div_left _ _ (by decide), ← List.drop_drop, h.rest_eq, List.drop_left]

/-- Bits within two bytes are read from the number that the two make. -/
theorem bits_eq (h : s.Ahead bytes) (k offset count : Nat) (hoffset : offset < 8)
    (hcount : offset + count ≤ 16) : s.bits (8 * k + offset) count =
      ((bytes.getD k 0).toNat + 2 ^ 8 * (bytes.getD (k + 1) 0).toNat) / 2 ^ offset % 2 ^ count := by
  have haligned := h.aligned
  have hplace : (s.taken + (8 * k + offset)) / 8 = s.taken / 8 + k := by omega
  have hwithin : (s.taken + (8 * k + offset)) % 8 = offset := by omega
  have hwindow : ∃ high, s.window (8 * k + offset) =
      ((bytes.getD k 0).toNat + 2 ^ 8 * (bytes.getD (k + 1) 0).toNat + 2 ^ 16 * high) /
        2 ^ offset % 2 ^ 48 := by
    refine ⟨s.byteAt (s.taken / 8 + k + 2) + 2 ^ 8 * s.byteAt (s.taken / 8 + k + 3) +
      2 ^ 16 * s.byteAt (s.taken / 8 + k + 4) + 2 ^ 24 * s.byteAt (s.taken / 8 + k + 5) +
      2 ^ 32 * s.byteAt (s.taken / 8 + k + 6), ?_⟩
    have hfirst := h.byteAt_eq k
    have hsecond := h.byteAt_eq (k + 1)
    rw [← Nat.add_assoc] at hsecond
    simp only [window, hplace, hwithin, hfirst, hsecond, Nat.shiftRight_eq_div_pow,
      Nat.shiftLeft_eq, windowBits, Nat.one_mul]
    congr 2
    omega
  obtain ⟨high, hhigh⟩ := hwindow
  have hdvd : 2 ^ count ∣ 2 ^ 48 := Nat.pow_dvd_pow 2 (by omega)
  rw [bits, hhigh, Nat.shiftLeft_eq, Nat.one_mul, Nat.mod_mod_of_dvd _ hdvd, low_bits _ _ hcount]

private theorem bits_within (h : s.Ahead bytes) (k offset count : Nat) (hoffset : offset < 8)
    (hcount : offset + count ≤ 8) : s.bits (8 * k + offset) count =
      (bytes.getD k 0).toNat / 2 ^ offset % 2 ^ count := by
  rw [h.bits_eq k offset count hoffset (by omega), low_bits _ _ hcount]

private theorem byte_eq (h : s.Ahead bytes) (k : Nat) : s.bits (8 * k) 8 = (bytes.getD k 0).toNat := by
  have hbits := h.bits_within k 0 8 (by decide) (by decide)
  rw [Nat.add_zero, Nat.pow_zero, Nat.div_one, Nat.mod_eq_of_lt (bytes.getD k 0).toNat_lt] at hbits
  exact hbits

private theorem pair_eq (h : s.Ahead bytes) (k : Nat) : s.bits (8 * k) 16 =
    (bytes.getD k 0).toNat + 256 * (bytes.getD (k + 1) 0).toNat := by
  have hlow := (bytes.getD k 0).toNat_lt
  have hhigh := (bytes.getD (k + 1) 0).toNat_lt
  have hbits := h.bits_eq k 0 16 (by decide) (by decide)
  rw [Nat.add_zero, Nat.pow_zero, Nat.div_one, Nat.mod_eq_of_lt (by omega)] at hbits
  exact hbits

end Ahead

/-- Some of the data was taken whole, and what it stood for was put out. -/
structure Puts (s : Stream) (data rest : Bytes) (t : Stream) : Prop where
  ahead : t.Ahead rest
  output_eq : t.output.toList = s.output.toList ++ data
  limit_eq : t.limit = s.limit

private theorem Puts.trans {s t u : Stream} {data data' rest rest' : Bytes} (h : s.Puts data rest t)
    (h' : t.Puts data' rest' u) : s.Puts (data ++ data') rest' u where
  ahead := h'.ahead
  output_eq := by rw [h'.output_eq, h.output_eq, List.append_assoc]
  limit_eq := h'.limit_eq.trans h.limit_eq

private theorem Puts.room_eq {s t : Stream} {data rest : Bytes} (h : s.Puts data rest t) :
    t.room = s.room - data.length := by
  have hsize := congrArg List.length h.output_eq
  rw [List.length_append, Array.length_toList, Array.length_toList] at hsize
  unfold room
  rw [h.limit_eq]
  omega

private theorem puts_copyBytes {s : Stream} {data rest : Bytes} (h : s.Ahead (data ++ rest))
    (hroom : data.length ≤ s.room) : s.Puts data rest (s.copyBytes data.length) := by
  induction data generalizing s with
  | nil => exact ⟨h, (List.append_nil _).symm, rfl⟩
  | cons b data ih =>
    rw [List.length_cons] at hroom
    have hbyte : s.input.getD (s.taken / 8) 0 = b := h.getD_eq 0
    have hfull : ¬ s.isFull = true := by
      rw [isFull, decide_eq_true_iff]
      omega
    have hemit : s.emit b = { s with output := s.output.push b } := if_neg hfull
    have hone : s.Puts [b] (data ++ rest) ((s.emit b).skip 8) := by
      rw [hemit]
      have hfront : s.Ahead ([b] ++ (data ++ rest)) := h
      have hskip := hfront.skip
      exact ⟨⟨hskip.aligned, hskip.rest_eq⟩, by simp [Stream.skip], rfl⟩
    have hlater := ih hone.ahead (by rw [hone.room_eq, List.length_singleton]; omega)
    rw [List.length_cons, copyBytes, hbyte]
    exact hone.trans hlater

end Stream

theorem Zlib.length_storedBlocks_le (data : Bytes) :
    (storedBlocks data).length ≤ 6 * data.length + 5 := by
  induction data using storedBlocks.induct with
  | case1 data hshort =>
    rw [storedBlocks, if_pos hshort]
    simp only [storedBlock, littleEndian, List.length_append, List.length_cons, List.length_nil]
    omega
  | case2 data hlong ih =>
    have hlimit : storedLimit = 65535 := rfl
    rw [List.length_drop] at ih
    rw [storedBlocks, if_neg hlong]
    simp only [storedBlock, littleEndian, List.length_append, List.length_cons, List.length_nil,
      List.length_take]
    omega

namespace Inflater

/-- Decompression goes from one state to another in a number of steps. -/
def Reaches (n : Nat) (i j : Inflater) : Prop := ∀ fuel, advance (n + fuel) i = advance fuel j

variable {i j k : Inflater} {m n : Nat} {s t : Stream} {last : Bool} {data rest : Bytes}

private theorem reaches_of_step (h : i.step = .moved j) : Reaches 1 i j := by
  intro fuel
  rw [Nat.add_comm, advance, h]

private theorem Reaches.trans (h : Reaches m i j) (h' : Reaches n j k) : Reaches (m + n) i k := by
  intro fuel
  rw [Nat.add_assoc, h (n + fuel), h' fuel]

private theorem advance_of_waiting (h : i.step = .waiting i) (fuel : Nat) : advance fuel i = some i := by
  cases fuel with
  | zero => rfl
  | succ fuel => rw [advance, h]

private theorem step_opening (h : s.Ahead ([0x78, 0x01] ++ rest)) :
    step ⟨s, .opening, last⟩ = .moved ⟨s.skip 16, .header, last⟩ := by
  have hmethod : s.bits 0 8 = 0x78 := h.byte_eq 0
  have hflags : s.bits 8 8 = 0x01 := h.byte_eq 1
  have havailable : ¬ s.available < 16 := by
    rw [h.available_eq, List.length_append, List.length_cons, List.length_singleton]
    omega
  rw [step, takeOpening, if_neg havailable]
  simp only [hmethod, hflags]
  rfl

private theorem puts_opening (h : s.Ahead ([0x78, 0x01] ++ rest)) : s.Puts [] rest (s.skip 16) where
  ahead := h.skip
  output_eq := (List.append_nil _).symm
  limit_eq := rfl

private theorem bytes_littleEndian {n : Nat} (hn : n ≤ Zlib.storedLimit) :
    (UInt8.ofNat (n % 256)).toNat + 256 * (UInt8.ofNat (n / 256)).toNat = n := by
  have hlimit : Zlib.storedLimit = 65535 := rfl
  simp only [UInt8.toNat_ofNat']
  omega

private theorem step_storedBlock {final : Bool} (hlength : data.length ≤ Zlib.storedLimit)
    (h : s.Ahead (Zlib.storedBlock final data ++ rest)) :
    step ⟨s, .header, last⟩ = .moved ⟨s.skip 40, .stored data.length, final⟩ := by
  have hcount := bytes_littleEndian hlength
  have hcheck := bytes_littleEndian (Nat.sub_le Zlib.storedLimit data.length)
  have havailable : 40 ≤ s.available := by
    rw [h.available_eq, Zlib.storedBlock, Zlib.littleEndian, Zlib.littleEndian]
    simp only [List.length_append, List.length_cons, List.length_nil]
    omega
  have hpadding : s.padding 3 = 5 := h.padding_eq 3
  have hflag : ((Zlib.storedBlock final data ++ rest).getD 0 0).toNat = final.toNat := by
    cases final <;> rfl
  have hlast : decide (s.bits 0 1 = 1) = final := by
    have hbits := h.bits_within 0 0 1 (by decide) (by decide)
    rw [hflag] at hbits
    rw [hbits]
    cases final <;> rfl
  have hkind : s.bits 1 2 = 0 := by
    have hbits := h.bits_within 0 1 2 (by decide) (by decide)
    rw [hflag] at hbits
    rw [hbits]
    cases final <;> rfl
  have hfirst : s.bits 8 16 = data.length := (h.pair_eq 1).trans hcount
  have hsecond : s.bits 24 16 = Zlib.storedLimit - data.length := (h.pair_eq 3).trans hcheck
  have hheader : ¬ s.available < headerBits := by
    unfold headerBits
    omega
  have hthere : ¬ s.available < 3 + 5 + 32 := by omega
  have hsum : ¬ data.length + (Zlib.storedLimit - data.length) ≠ 65535 := by
    rw [Nat.add_sub_of_le hlength]
    decide
  rw [step, takeHeader, if_neg hheader]
  simp only [hkind, hlast, takeStoredHeader, hpadding, if_neg hthere, hfirst, hsecond, if_neg hsum]

/-- A stored block is taken in two steps, its header and its bytes. -/
theorem exists_reaches_storedBlock {final : Bool} (hlength : data.length ≤ Zlib.storedLimit)
    (h : s.Ahead (Zlib.storedBlock final data ++ rest)) (hroom : data.length ≤ s.room) :
    ∃ t, s.Puts data rest t ∧ Reaches 2 ⟨s, .header, last⟩ ⟨t, afterBlock final, final⟩ := by
  -- the header and the two lengths behind it make five bytes
  have hfront : Zlib.storedBlock final data ++ rest = (if final then (1 : UInt8) else 0) ::
      (Zlib.littleEndian data.length ++ Zlib.littleEndian (Zlib.storedLimit - data.length)) ++
        (data ++ rest) := by
    simp [Zlib.storedBlock]
  have hbytes : (s.skip 40).Ahead (data ++ rest) := by
    rw [hfront] at h
    exact h.skip
  have hcopy : (s.skip 40).Puts data rest ((s.skip 40).copyBytes data.length) :=
    Stream.puts_copyBytes hbytes hroom
  have hall : data.length ≤ (s.skip 40).available / 8 := by
    rw [hbytes.available_eq, List.length_append]
    omega
  have hcount : min data.length (min ((s.skip 40).available / 8) (s.skip 40).room) = data.length :=
    Nat.min_eq_left (Nat.le_min.2 ⟨hall, hroom⟩)
  refine ⟨_, ⟨hcopy.ahead, hcopy.output_eq, hcopy.limit_eq⟩, ?_⟩
  refine (reaches_of_step (step_storedBlock hlength h)).trans (reaches_of_step ?_)
  rw [step, takeStored]
  simp only [hcount, if_pos]

/-- Stored blocks are taken up to the checksum behind them, in no more steps than they have bytes. -/
theorem exists_reaches_storedBlocks (data : Bytes) (h : s.Ahead (Zlib.storedBlocks data ++ rest))
    (hroom : data.length ≤ s.room) : ∃ n ≤ (Zlib.storedBlocks data).length, ∃ t,
      s.Puts data rest t ∧ Reaches n ⟨s, .header, last⟩ ⟨t, .closing, true⟩ := by
  -- along the blocks: each takes two steps and has five bytes in front of its data
  induction data using Zlib.storedBlocks.induct generalizing s last with
  | case1 data hshort =>
    rw [Zlib.storedBlocks, if_pos hshort] at h ⊢
    obtain ⟨t, hputs, hreaches⟩ := exists_reaches_storedBlock hshort h hroom
    exact ⟨2, by simp [Zlib.storedBlock, Zlib.littleEndian], t, hputs, hreaches⟩
  | case2 data hlong ih =>
    rw [Zlib.storedBlocks, if_neg hlong, List.append_assoc] at h
    have htake : (data.take Zlib.storedLimit).length = Zlib.storedLimit :=
      List.length_take_of_le (by omega)
    obtain ⟨t, hfirst, hblock⟩ := exists_reaches_storedBlock (by omega) h (by omega)
    have hdrop : (data.drop Zlib.storedLimit).length ≤ t.room := by
      rw [hfirst.room_eq, htake, List.length_drop]
      omega
    obtain ⟨n, hn, u, hrest, hblocks⟩ := ih hfirst.ahead hdrop
    have hputs := hfirst.trans hrest
    rw [List.take_append_drop] at hputs
    have hsteps : 2 + n ≤ (Zlib.storedBlocks data).length := by
      rw [Zlib.storedBlocks, if_neg hlong, List.length_append]
      simp only [Zlib.storedBlock, Zlib.littleEndian, List.length_append, List.length_cons]
      omega
    exact ⟨2 + n, hsteps, u, hputs, hblock.trans hblocks⟩

private theorem exists_step_closing (h : s.Ahead (data ++ rest)) (hlength : data.length = 4) :
    ∃ checksum, step ⟨s, .closing, last⟩ = .moved ⟨s.skip 32, .finished checksum, last⟩ := by
  have hpadding : s.padding 0 = 0 := h.padding_eq 0
  have hthere : ¬ s.available < 0 + checksumBits := by
    rw [h.available_eq, List.length_append, hlength, checksumBits]
    omega
  rw [step, takeChecksum]
  simp only [hpadding, if_neg hthere]
  -- the checksum is not compared with anything
  exact ⟨_, rfl⟩

/-- What was stored comes out again, as long as there is room for it. Stored blocks begin and end with whole
bytes, so what is ahead in a stream is told by bytes. -/
theorem feed_store {limit : Nat} (hlimit : data.length ≤ limit) :
    ∃ i, (start limit).feed (Zlib.store data) = some i ∧ i.isFinished = true ∧
      i.stream.output.toList = data := by
  have hstart : ((Stream.start limit).append (Zlib.store data)).Ahead ([0x78, 0x01] ++
      (Zlib.storedBlocks data ++ (Bytes.bigEndian 4 (Zlib.checksum data) ++ []))) :=
    ⟨rfl, by simp [Stream.append, Stream.start, Zlib.store]⟩
  have hopening := puts_opening hstart
  obtain ⟨n, hn, t, hblocks, hreaches⟩ :=
    exists_reaches_storedBlocks data hopening.ahead (by rw [hopening.room_eq]; exact hlimit)
  obtain ⟨checksum, hclosing⟩ := exists_step_closing hblocks.ahead (Bytes.length_bigEndian 4 _)
  refine ⟨⟨t.skip 32, .finished checksum, true⟩, ?_, rfl, ?_⟩
  · have hrun := ((reaches_of_step (step_opening hstart)).trans hreaches).trans
      (reaches_of_step hclosing)
    have hfuel : 1 + n + 1 ≤
        2 * ((Stream.start limit).append (Zlib.store data)).available + 4 := by
      rw [hstart.available_eq]
      simp only [List.length_append]
      omega
    obtain ⟨fuel, hfuel⟩ := Nat.exists_eq_add_of_le hfuel
    rw [start, feed]
    simp only [hfuel]
    rw [hrun fuel, advance_of_waiting rfl]
  · exact hblocks.output_eq

end Inflater

end Acutance.Codec.Flate
