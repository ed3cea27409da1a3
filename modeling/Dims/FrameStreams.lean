import Dims.StreamFraming

/-!
# Streams of frames

A frame is a header that says how many bytes follow, and these bytes. Where a format reads
exactly what it writes, a stream of frames is cut in one way only.
-/

namespace Dims.ByteCodec

universe u v

variable {α : Type u} {β : Type v}

@[simp] theorem leBytes_leValue (w : Bytes) : leBytes w.length (leValue w) = w := by
  induction w with
  | nil => rfl
  | cons b w ih =>
    have hhead : UInt8.ofNat (b.toNat + 256 * leValue w) = b := by
      apply UInt8.toNat_inj.mp
      rw [UInt8.toNat_ofNat']
      have := b.toNat_lt
      omega
    have htail : (b.toNat + 256 * leValue w) / 256 = leValue w := by
      have := b.toNat_lt
      omega
    simp only [List.length_cons, leValue, leBytes, hhead, htail, ih]

theorem leValue_lt (w : Bytes) : leValue w < 256 ^ w.length := by
  induction w with
  | nil => simp [leValue]
  | cons b w ih =>
    have := b.toNat_lt
    simp only [leValue, List.length_cons, pow_succ]
    omega

namespace Codec

/-- What is read is what was written. -/
def Sound (c : Codec α) : Prop :=
  ∀ {bs a rest}, c.decode bs = some (a, rest) → c.Fits a ∧ bs = c.encode a ++ rest

theorem sound_uint (n : ℕ) : (uint n).Sound := by
  intro bs v rest h
  obtain ⟨⟨w, rest'⟩, hw, heq⟩ := Option.map_eq_some_iff.mp h
  cases heq
  obtain ⟨rfl, hlength⟩ := takeBytes_spec hw
  subst hlength
  refine ⟨leValue_lt w, ?_⟩
  change w ++ _ = leBytes w.length (leValue w) ++ _
  rw [leBytes_leValue]

theorem sound_imap {c : Codec α} (h : c.Sound) (unpack : β → α) (pack : α → β)
    (hpack : ∀ b, pack (unpack b) = b) (hunpack : ∀ a, c.Fits a → unpack (pack a) = a) :
    (c.imap unpack pack hpack).Sound := by
  intro bs b rest hb
  obtain ⟨⟨a, rest'⟩, ha, heq⟩ := Option.map_eq_some_iff.mp hb
  cases heq
  obtain ⟨hfits, hbytes⟩ := h ha
  have hback := hunpack a hfits
  refine ⟨?_, ?_⟩
  · change c.Fits (unpack (pack a))
    rwa [hback]
  · change bs = c.encode (unpack (pack a)) ++ _
    rwa [hback]

theorem sound_prod {ca : Codec α} {cb : Codec β} (ha : ca.Sound) (hb : cb.Sound) :
    (ca.prod cb).Sound := by
  intro bs ab rest h
  obtain ⟨⟨a, mid⟩, hfirst, hrest⟩ := Option.bind_eq_some_iff.mp h
  obtain ⟨⟨b, tail⟩, hsecond, heq⟩ := Option.map_eq_some_iff.mp hrest
  cases heq
  obtain ⟨hfits, rfl⟩ := ha hfirst
  obtain ⟨hfits', rfl⟩ := hb hsecond
  exact ⟨⟨hfits, hfits'⟩, by simp [prod]⟩

/-- So many bytes, as they are. -/
def flat (n : ℕ) : Codec Bytes where
  encode w := w
  decode := takeBytes n
  Fits w := w.length = n
  decode_encode w rest h := takeBytes_append h rest
  decode_suffix := by
    intro bs w rest h
    obtain ⟨rfl, -⟩ := takeBytes_spec h
    exact List.suffix_append _ _

theorem sound_flat (n : ℕ) : (flat n).Sound := by
  intro bs w rest h
  obtain ⟨rfl, hlength⟩ := takeBytes_spec h
  exact ⟨hlength, rfl⟩

theorem extends_flat (n : ℕ) : Extends (flat n).decode := extends_takeBytes n

section Frames

variable {head : Codec α} {size : α → ℕ} {limit : ℕ}

variable (head size limit) in
/-- A header that says how many bytes follow, at most the limit, and these bytes. -/
def framed : Codec (α × Bytes) where
  encode f := head.encode f.1 ++ f.2
  decode bs := (head.decode bs).bind fun p =>
    if size p.1 ≤ limit then (takeBytes (size p.1) p.2).map fun q => ((p.1, q.1), q.2) else none
  Fits f := head.Fits f.1 ∧ f.2.length = size f.1 ∧ size f.1 ≤ limit
  decode_encode := by
    rintro ⟨a, data⟩ rest ⟨ha, hlength, hlimit⟩
    simp [List.append_assoc, head.decode_encode _ _ ha, takeBytes_append hlength, hlimit]
  decode_suffix := by
    intro bs f rest h
    obtain ⟨⟨a, mid⟩, ha, hrest⟩ := Option.bind_eq_some_iff.mp h
    split at hrest
    · obtain ⟨⟨data, tail⟩, hdata, heq⟩ := Option.map_eq_some_iff.mp hrest
      cases heq
      obtain ⟨rfl, -⟩ := takeBytes_spec hdata
      exact (List.suffix_append _ _).trans (head.decode_suffix _ _ _ ha)
    · cases hrest

theorem extends_framed (h : Extends head.decode) : Extends (framed head size limit).decode := by
  intro bs f rest more hf
  obtain ⟨⟨a, mid⟩, ha, hrest⟩ := Option.bind_eq_some_iff.mp hf
  change (head.decode (bs ++ more)).bind _ = _
  rw [h _ _ _ more ha, Option.bind_some]
  split at hrest
  case isTrue hlimit =>
    obtain ⟨⟨data, tail⟩, hdata, heq⟩ := Option.map_eq_some_iff.mp hrest
    cases heq
    simp only [hlimit, if_true]
    rw [extends_takeBytes _ _ _ _ more hdata]
    rfl
  case isFalse => cases hrest

theorem framed_decode_of_head {bs : Bytes} (h : head.decode bs = none) :
    (framed head size limit).decode bs = none := by
  change (head.decode bs).bind _ = none
  rw [h]
  rfl

theorem framed_decode_of_short {a : α} {data : Bytes} (ha : head.Fits a)
    (h : data.length < size a) :
    (framed head size limit).decode (head.encode a ++ data) = none := by
  change (head.decode _).bind _ = none
  rw [head.decode_encode _ _ ha, Option.bind_some]
  split
  · simp [takeBytes, Nat.not_le.mpr h]
  · rfl

end Frames

end Codec

end Dims.ByteCodec

namespace Dims.Serialize
open ByteCodec Codec

theorem sound_uint32 : uint32.Sound := by
  refine sound_imap (sound_uint 4) _ _ _ fun n hn => ?_
  have hlt : n < 2 ^ 32 := by simpa [Codec.uint] using hn
  simpa using hlt

theorem extends_uint32 : Extends uint32.decode := extends_imap (extends_uint 4) _ _ _

end Dims.Serialize
