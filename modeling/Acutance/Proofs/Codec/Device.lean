import Acutance.Proofs.Codec.Sink

namespace Acutance

/-- Where bytes are written to, offer by offer. What a device leaves of an offer is offered to it again. -/
structure Device (σ : Type) where
  /-- Offers bytes, again where it is interrupted. The outcome is how many of them were taken, from the
  first one on. -/
  offer : Bytes → Edit σ SystemError Nat
  /-- Passes on what was taken. -/
  flush : Edit σ SystemError Unit
  /-- The bytes that were taken so far. -/
  taken : σ → Bytes
  /-- How many more bytes there is room for, if there is a limit. -/
  room : σ → Option Nat

namespace Device

variable {σ ε δ : Type} {d : Device σ} {s s' t : σ} {data more : Bytes} {full : SystemError}

/-- Why a device is given up that takes nothing of an offer. -/
def idle : SystemError := .other "failed to write whole buffer"

/-- Offers bytes until all of them are taken. -/
def writeAll (d : Device σ) (data : Bytes) : Edit σ SystemError Unit :=
  if data = [] then pure ()
  else do
    let count ← d.offer data
    if count = 0 then throw (.error idle) else d.writeAll (data.drop count)
termination_by data.length
decreasing_by
  rename_i hdata hcount
  have hlength := List.length_pos_iff.2 hdata
  rw [List.length_drop]
  omega

private theorem writeAll_nil (d : Device σ) : d.writeAll [] = pure () := by
  rw [writeAll, if_pos rfl]

private theorem writeAll_of_offer_ok {count : Nat} (hdata : data ≠ []) (hcount : count ≠ 0)
    (hoffer : d.offer data s = .ok count t) : d.writeAll data s = d.writeAll (data.drop count) t := by
  rw [writeAll, if_neg hdata, Edit.bind_of_eq_ok hoffer, if_neg hcount]

private theorem writeAll_of_offer_error {stop : Stop SystemError} (hdata : data ≠ [])
    (hoffer : d.offer data s = .error stop t) : d.writeAll data s = .error stop t := by
  rw [writeAll, if_neg hdata]
  exact Edit.bind_eq_error_iff.2 (.inl hoffer)

/-- A device with room takes at least one byte of an offer, and no more than there is room for. Without
room it takes none, and says so by the error `full`. What was taken is passed on without an error. -/
structure Bounded (d : Device σ) (full : SystemError) : Prop where
  takes : ∀ s data, data ≠ [] → d.room s ≠ some 0 → ∃ count s', d.offer data s = .ok count s' ∧
    0 < count ∧ count ≤ data.length ∧ (∀ room, d.room s = some room → count ≤ room) ∧
      d.taken s' = d.taken s ++ data.take count ∧ d.room s' = (d.room s).map fun room => room - count
  refuses : ∀ s data, data ≠ [] → d.room s = some 0 →
    ∃ s', d.offer data s = .error (.error full) s' ∧ d.taken s' = d.taken s
  flushes : ∀ s, ∃ s', d.flush s = .ok () s' ∧ d.taken s' = d.taken s ∧ d.room s' = d.room s

/-- All of the bytes have been taken. -/
structure Stored (d : Device σ) (s : σ) (data : Bytes) (s' : σ) : Prop where
  le_room : ∀ room, d.room s = some room → data.length ≤ room
  taken_eq : d.taken s' = d.taken s ++ data
  room_eq : d.room s' = (d.room s).map fun room => room - data.length

/-- The first of the bytes have been taken, until the device was full. -/
def Filled (d : Device σ) (s : σ) (data : Bytes) (s' : σ) : Prop :=
  ∃ room, d.room s = some room ∧ room < data.length ∧ d.taken s' = d.taken s ++ data.take room

/-- An edit puts bytes on a device, or ends in the error `stop` when the device is full before that. -/
def Puts (d : Device σ) (act : Edit σ ε Unit) (data : Bytes) (stop : ε) : Prop :=
  ∀ s, (∃ s', act s = .ok () s' ∧ d.Stored s data s') ∨
    ∃ s', act s = .error (.error stop) s' ∧ d.Filled s data s'

private theorem stored_nil (d : Device σ) (s : σ) : d.Stored s [] s where
  le_room := fun room _ => Nat.zero_le room
  taken_eq := (List.append_nil _).symm
  room_eq := by cases d.room s <;> rfl

private theorem Stored.trans (h : d.Stored s data t) (hmore : d.Stored t more s') :
    d.Stored s (data ++ more) s' where
  le_room := by
    intro room hroom
    have hfirst := h.le_room room hroom
    have hsecond := hmore.le_room (room - data.length) (by rw [h.room_eq, hroom, Option.map_some])
    rw [List.length_append]
    omega
  taken_eq := by rw [hmore.taken_eq, h.taken_eq, List.append_assoc]
  room_eq := by
    rw [hmore.room_eq, h.room_eq, Option.map_map, List.length_append]
    exact congrArg (fun f => (d.room s).map f) (funext fun room => Nat.sub_sub room _ _)

private theorem Stored.filled (h : d.Stored s data t) (hmore : d.Filled t more s') :
    d.Filled s (data ++ more) s' := by
  obtain ⟨left, hleft, hshort, htaken⟩ := hmore
  rw [h.room_eq] at hleft
  obtain ⟨room, hroom, rfl⟩ := Option.map_eq_some_iff.1 hleft
  have hle := h.le_room room hroom
  refine ⟨room, hroom, ?_, ?_⟩
  · rw [List.length_append]
    omega
  · rw [htaken, h.taken_eq, List.append_assoc, List.take_append, List.take_of_length_le hle]

private theorem Filled.append (h : d.Filled s data s') (more : Bytes) : d.Filled s (data ++ more) s' := by
  obtain ⟨room, hroom, hshort, htaken⟩ := h
  refine ⟨room, hroom, ?_, ?_⟩
  · rw [List.length_append]
    omega
  · rw [htaken, List.take_append_of_le_length (Nat.le_of_lt hshort)]

private theorem puts_nil (d : Device σ) (stop : ε) : d.Puts (pure ()) [] stop :=
  fun s => .inl ⟨s, rfl, d.stored_nil s⟩

/-- Edits that put bytes on a device one after the other put all of their bytes on it. -/
theorem Puts.append {act next : Edit σ ε Unit} {stop : ε} (h : d.Puts act data stop)
    (hnext : d.Puts next more stop) : d.Puts (act >>= fun _ => next) (data ++ more) stop := by
  intro s
  rcases h s with ⟨t, hact, hstored⟩ | ⟨t, hact, hfilled⟩
  · rw [Edit.bind_of_eq_ok hact]
    rcases hnext t with ⟨s', hrest, hmore⟩ | ⟨s', hrest, hmore⟩
    · exact .inl ⟨s', hrest, hstored.trans hmore⟩
    · exact .inr ⟨s', hrest, hstored.filled hmore⟩
  · exact .inr ⟨t, Edit.bind_eq_error_iff.2 (.inl hact), hfilled.append more⟩

theorem Puts.restate {act : Edit σ ε Unit} {stop : ε} (h : d.Puts act data stop) (f : ε → δ) :
    d.Puts (act.restate f) data (f stop) := by
  intro s
  rcases h s with ⟨t, hact, hstored⟩ | ⟨t, hact, hfilled⟩
  · exact .inl ⟨t, by rw [Edit.restate, hact], hstored⟩
  · exact .inr ⟨t, by rw [Edit.restate, hact]; rfl, hfilled⟩

/-- What an empty device holds in the end: all of the bytes, or the first of them behind an error. -/
theorem Puts.exists_take {act : Edit σ ε Unit} {stop : ε} {limit : Nat} (h : d.Puts act data stop)
    (htaken : d.taken s = []) (hroom : d.room s = some limit) :
    ∃ s', d.taken s' = data.take limit ∧
      act s = if data.length ≤ limit then .ok () s' else .error (.error stop) s' := by
  rcases h s with ⟨t, hact, hstored⟩ | ⟨t, hact, room, hleft, hshort, hfirst⟩
  · have hle := hstored.le_room limit hroom
    refine ⟨t, ?_, by rw [if_pos hle, hact]⟩
    rw [hstored.taken_eq, htaken, List.nil_append, List.take_of_length_le hle]
  · obtain rfl : limit = room := Option.some.inj (hroom.symm.trans hleft)
    refine ⟨t, ?_, by rw [if_neg (Nat.not_le.2 hshort), hact]⟩
    rw [hfirst, htaken, List.nil_append]

/-- The device is offered what it has left until it has taken all of it or is full. -/
theorem Bounded.writeAll_puts (h : d.Bounded full) (data : Bytes) :
    d.Puts (d.writeAll data) data full := by
  induction data using writeAll.induct with
  | case1 =>
    rw [writeAll_nil]
    exact d.puts_nil full
  | case2 data hdata ih =>
    intro s
    by_cases hroom : d.room s = some 0
    · obtain ⟨t, hoffer, htaken⟩ := h.refuses s data hdata hroom
      refine .inr ⟨t, writeAll_of_offer_error hdata hoffer, 0, hroom, List.length_pos_iff.2 hdata, ?_⟩
      rw [htaken, List.take_zero, List.append_nil]
    · obtain ⟨count, t, hoffer, hpos, hcount, hle, htaken, hleft⟩ := h.takes s data hdata hroom
      have hpart : (data.take count).length = count := List.length_take_of_le hcount
      have hstored : d.Stored s (data.take count) t :=
        ⟨by rwa [hpart], htaken, by rwa [hpart]⟩
      have hrest := ih count (Nat.ne_of_gt hpos) t
      have hjoin : data.take count ++ data.drop count = data := List.take_append_drop count data
      rw [writeAll_of_offer_ok hdata (Nat.ne_of_gt hpos) hoffer]
      rcases hrest with ⟨s', hwrite, hmore⟩ | ⟨s', hwrite, hmore⟩
      · exact .inl ⟨s', hwrite, hjoin ▸ hstored.trans hmore⟩
      · exact .inr ⟨s', hwrite, hjoin ▸ hstored.filled hmore⟩

/-- Pieces that are written one after the other are taken as if they were one. -/
theorem Bounded.forM_writeAll_puts (h : d.Bounded full) (pieces : List Bytes) :
    d.Puts (pieces.forM d.writeAll) pieces.flatten full := by
  induction pieces with
  | nil => exact d.puts_nil full
  | cons piece pieces ih => exact (h.writeAll_puts piece).append ih

theorem Bounded.flush_puts (h : d.Bounded full) : d.Puts d.flush [] full := by
  intro s
  obtain ⟨t, hflush, htaken, hroom⟩ := h.flushes s
  have hnil := d.stored_nil s
  exact .inl ⟨t, hflush, hnil.le_room, htaken.trans hnil.taken_eq, hroom.trans hnil.room_eq⟩

/-- A device that takes one byte of every offer, until no room is left. -/
def drip (full : SystemError) : Device (Bytes × Nat) where
  offer data := fun s =>
    if data = [] then .ok 0 s
    else if s.2 = 0 then .error (.error full) s
    else .ok 1 (s.1 ++ data.take 1, s.2 - 1)
  flush := pure ()
  taken s := s.1
  room s := some s.2

theorem drip_bounded (full : SystemError) : (drip full).Bounded full where
  takes := by
    intro s data hdata hroom
    have hpos : s.2 ≠ 0 := fun h => hroom (congrArg some h)
    refine ⟨1, _, (if_neg hdata).trans (if_neg hpos), Nat.one_pos, List.length_pos_iff.2 hdata,
      fun room h => ?_, rfl, rfl⟩
    rw [← Option.some.inj h]
    exact Nat.pos_of_ne_zero hpos
  refuses := fun s data hdata hroom =>
    ⟨s, (if_neg hdata).trans (if_pos (Option.some.inj hroom)), rfl⟩
  flushes := fun s => ⟨s, rfl, rfl, rfl⟩

end Device

namespace Sink

/-- Takes as many of the bytes as there is room for. A sink without any room takes no byte. -/
def offer (data : Bytes) : Edit Sink SystemError Nat := fun s =>
  match s.room with
  | none => .ok data.length { s with written := s.written ++ data }
  | some room =>
    if room = 0 ∧ data ≠ [] then .error (.error .writerFull) s
    else .ok (min room data.length) ⟨s.written ++ data.take room, some (room - data.length)⟩

/-- A sink takes what it is offered at once, as far as there is room. -/
def device : Device Sink where
  offer := offer
  flush := pure ()
  taken := bytes
  room := room

private theorem offer_of_pos {written : Array UInt8} {room : Nat} (hroom : 0 < room) (data : Bytes) :
    offer data ⟨written, some room⟩ =
      .ok (min room data.length) ⟨written ++ data.take room, some (room - data.length)⟩ :=
  if_neg fun h => absurd h.1 (Nat.ne_of_gt hroom)

private theorem offer_of_full {written : Array UInt8} {data : Bytes} (hdata : data ≠ []) :
    offer data ⟨written, some 0⟩ = .error (.error .writerFull) ⟨written, some 0⟩ :=
  if_pos ⟨rfl, hdata⟩

theorem device_bounded : device.Bounded .writerFull where
  takes := by
    rintro ⟨written, _ | room⟩ data hdata hroom
    · refine ⟨data.length, _, rfl, List.length_pos_iff.2 hdata, Nat.le_refl _, nofun, ?_, rfl⟩
      rw [List.take_length]
      exact bytes_append written data none
    · have hpos : 0 < room := Nat.pos_of_ne_zero fun h => hroom (congrArg some h)
      have hlength := List.length_pos_iff.2 hdata
      have hpart : data.take (min room data.length) = data.take room := by
        rw [← List.take_take, List.take_length]
      refine ⟨min room data.length, _, offer_of_pos hpos data, by omega, Nat.min_le_right _ _,
        fun left hleft => ?_, ?_, ?_⟩
      · rw [← Option.some.inj hleft]
        exact Nat.min_le_left _ _
      · rw [hpart]
        exact bytes_append written (data.take room) _
      · change some (room - data.length) = some (room - min room data.length)
        congr 1
        omega
  refuses := by
    rintro ⟨written, _ | room⟩ data hdata hroom
    · cases hroom
    · obtain rfl : room = 0 := Option.some.inj hroom
      exact ⟨_, offer_of_full hdata, rfl⟩
  flushes := fun s => ⟨s, rfl, rfl, rfl⟩

/-- Bytes are written to a sink as if it were offered them until all are taken. -/
theorem writeAll_device (data : Bytes) : device.writeAll data = write data := by
  funext s
  by_cases hdata : data = []
  · obtain ⟨written, _ | room⟩ := s <;> simp [hdata, Device.writeAll_nil, write, pure, EStateM.pure]
  have hlength := List.length_pos_iff.2 hdata
  obtain ⟨written, _ | room⟩ := s
  · have hoffer : device.offer data ⟨written, none⟩ = .ok data.length ⟨written ++ data, none⟩ := rfl
    rw [Device.writeAll_of_offer_ok hdata (Nat.ne_of_gt hlength) hoffer, List.drop_length,
      Device.writeAll_nil]
    rfl
  rcases Nat.eq_zero_or_pos room with rfl | hroom
  · rw [Device.writeAll_of_offer_error hdata (offer_of_full hdata), write_of_lt hlength]
    simp
  rw [Device.writeAll_of_offer_ok hdata (by omega) (offer_of_pos hroom data)]
  rcases Nat.lt_or_ge room data.length with hshort | hfits
  · -- the second offer finds no room
    have hrest : data.drop (min room data.length) ≠ [] := by
      rw [Nat.min_eq_left (Nat.le_of_lt hshort)]
      exact fun h => absurd (List.drop_eq_nil_iff.1 h) (Nat.not_le.2 hshort)
    rw [Nat.sub_eq_zero_of_le (Nat.le_of_lt hshort),
      Device.writeAll_of_offer_error hrest (offer_of_full hrest), write_of_lt hshort]
  · rw [Nat.min_eq_right hfits, List.drop_length, Device.writeAll_nil, write_of_le hfits,
      List.take_of_length_le hfits]
    rfl

end Sink

end Acutance
