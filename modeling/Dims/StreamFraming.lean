import Dims.Serialize

/-!
# Values in a stream of bytes

What is read from the front of a byte string does not change when more bytes follow it. A
stream of values that is cut anywhere is then a number of whole values and a rest that
cannot be read.
-/

namespace Dims.ByteCodec

universe u v

variable {α : Type u} {β : Type v}

/-- A reader that does not look at what it leaves. -/
def Extends (read : Reader α) : Prop :=
  ∀ bs a rest more, read bs = some (a, rest) → read (bs ++ more) = some (a, rest ++ more)

theorem extends_takeBytes (n : ℕ) : Extends (takeBytes n) := by
  intro bs w rest more h
  obtain ⟨rfl, hlength⟩ := takeBytes_spec h
  rw [List.append_assoc]
  exact takeBytes_append hlength _

namespace Codec

theorem extends_uint (n : ℕ) : Extends (uint n).decode := by
  intro bs v rest more h
  obtain ⟨⟨w, rest'⟩, hw, heq⟩ := Option.map_eq_some_iff.mp h
  cases heq
  change (takeBytes n (bs ++ more)).map _ = _
  rw [extends_takeBytes n _ _ _ more hw]
  rfl

theorem extends_imap {c : Codec α} (h : Extends c.decode) (unpack : β → α) (pack : α → β)
    (hpack : ∀ b, pack (unpack b) = b) : Extends (c.imap unpack pack hpack).decode := by
  intro bs b rest more hb
  obtain ⟨⟨a, rest'⟩, ha, heq⟩ := Option.map_eq_some_iff.mp hb
  cases heq
  change (c.decode (bs ++ more)).map _ = _
  rw [h _ _ _ more ha]
  rfl

theorem extends_prod {ca : Codec α} {cb : Codec β} (ha : Extends ca.decode) (hb : Extends cb.decode) :
    Extends (ca.prod cb).decode := by
  intro bs ab rest more h
  obtain ⟨⟨a, mid⟩, hfirst, hrest⟩ := Option.bind_eq_some_iff.mp h
  obtain ⟨⟨b, tail⟩, hsecond, heq⟩ := Option.map_eq_some_iff.mp hrest
  cases heq
  change (ca.decode (bs ++ more)).bind _ = _
  rw [ha _ _ _ more hfirst, Option.bind_some, hb _ _ _ more hsecond]
  rfl

theorem extends_bytes {count : Codec ℕ} (h : Extends count.decode) : Extends (bytes count).decode := by
  intro bs w rest more hw
  obtain ⟨⟨n, mid⟩, hn, hrest⟩ := Option.bind_eq_some_iff.mp hw
  change (count.decode (bs ++ more)).bind _ = _
  rw [h _ _ _ more hn, Option.bind_some]
  exact extends_takeBytes n _ _ _ more hrest

section Streams

variable {c : Codec α}

theorem decode_eq_none_of_prefix (h : Extends c.decode) {a : α} (ha : c.Fits a) {part : Bytes}
    (hpart : part <+: c.encode a) (hne : part ≠ c.encode a) : c.decode part = none := by
  obtain ⟨more, hmore⟩ := hpart
  refine Option.eq_none_iff_forall_ne_some.mpr ?_
  rintro ⟨b, rest⟩ hb
  have hwhole := c.decode_encode a [] ha
  rw [List.append_nil, ← hmore, h _ _ _ more hb] at hwhole
  obtain ⟨-, hnil⟩ := Prod.mk.inj (Option.some.inj hwhole)
  rw [(List.append_eq_nil_iff.mp hnil).2, List.append_nil] at hmore
  exact hne hmore

variable (c) in
def encodeAll (values : List α) : Bytes := values.flatMap c.encode

@[simp] theorem encodeAll_nil : c.encodeAll [] = [] := rfl

@[simp] theorem encodeAll_cons (a : α) (values : List α) :
    c.encodeAll (a :: values) = c.encode a ++ c.encodeAll values := rfl

@[simp] theorem encodeAll_append (values values' : List α) :
    c.encodeAll (values ++ values') = c.encodeAll values ++ c.encodeAll values' :=
  List.flatMap_append

variable (c) in
/-- What is left of a cut value: some bytes of it, and not all. -/
def Cut (part : Bytes) : Prop :=
  part ≠ [] ∧ ∃ a, c.Fits a ∧ part <+: c.encode a ∧ part ≠ c.encode a

theorem Cut.decode_eq_none (h : Extends c.decode) {part : Bytes} (hcut : c.Cut part) :
    c.decode part = none := by
  obtain ⟨-, a, ha, hprefix, hne⟩ := hcut
  exact decode_eq_none_of_prefix h ha hprefix hne

/-- Wherever a stream of values is cut, whole values come first, and then perhaps a part of
the next one. -/
theorem exists_take_encodeAll {values : List α} (hfits : ∀ a ∈ values, c.Fits a) (n : ℕ) :
    ∃ now later part, values = now ++ later ∧
      (c.encodeAll values).take n = c.encodeAll now ++ part ∧ (part = [] ∨ c.Cut part) := by
  induction values generalizing n with
  | nil => exact ⟨[], [], [], rfl, by simp, .inl rfl⟩
  | cons a values ih =>
    obtain ⟨ha, hrest⟩ := List.forall_mem_cons.mp hfits
    by_cases hn : (c.encode a).length ≤ n
    · obtain ⟨now, later, part, rfl, htake, hpart⟩ := ih hrest (n - (c.encode a).length)
      refine ⟨a :: now, later, part, rfl, ?_, hpart⟩
      rw [encodeAll_cons, List.take_append, List.take_of_length_le hn, htake, encodeAll_cons,
        List.append_assoc]
    · refine ⟨[], a :: values, (c.encode a).take n, rfl, ?_, ?_⟩
      · rw [encodeAll_cons, List.take_append_of_le_length (le_of_not_ge hn), encodeAll_nil,
          List.nil_append]
      · by_cases hnil : (c.encode a).take n = []
        · exact .inl hnil
        · refine .inr ⟨hnil, a, ha, List.take_prefix n _, fun heq => hn ?_⟩
          have hlength := congrArg List.length heq
          rw [List.length_take] at hlength
          omega

theorem not_encodeAll_append_cut (h : Extends c.decode) {now now' : List α} {part : Bytes}
    (hnow : ∀ a ∈ now, c.Fits a) (hnow' : ∀ a ∈ now', c.Fits a) (hcut : c.Cut part) :
    c.encodeAll now' ≠ c.encodeAll now ++ part := by
  induction now generalizing now' with
  | nil =>
    intro heq
    rw [encodeAll_nil, List.nil_append] at heq
    cases now' with
    | nil => exact hcut.1 heq.symm
    | cons b now' =>
      have hdecode := c.decode_encode b (c.encodeAll now') (hnow' b (List.mem_cons_self ..))
      rw [← encodeAll_cons, heq, hcut.decode_eq_none h] at hdecode
      cases hdecode
  | cons a now ih =>
    intro heq
    obtain ⟨ha, hrest⟩ := List.forall_mem_cons.mp hnow
    have hdecode := c.decode_encode a (c.encodeAll now ++ part) ha
    rw [encodeAll_cons, List.append_assoc] at heq
    rw [← heq] at hdecode
    cases now' with
    | nil =>
      rw [encodeAll_nil] at heq
      obtain ⟨-, hnil⟩ := List.append_eq_nil_iff.mp heq.symm
      exact hcut.1 (List.append_eq_nil_iff.mp hnil).2
    | cons b now' =>
      obtain ⟨hb, hrest'⟩ := List.forall_mem_cons.mp hnow'
      rw [encodeAll_cons, c.decode_encode b _ hb] at hdecode
      obtain ⟨-, htail⟩ := Prod.mk.inj (Option.some.inj hdecode)
      exact ih hrest hrest' htail

theorem exists_append_of_encodeAll_eq (h : ∀ a, c.Fits a → c.encode a ≠ []) {values now : List α}
    {rest : Bytes} (hfits : ∀ a ∈ values, c.Fits a) (hnow : ∀ a ∈ now, c.Fits a)
    (heq : c.encodeAll values = c.encodeAll now ++ rest) :
    ∃ later, values = now ++ later ∧ c.encodeAll later = rest := by
  induction now generalizing values with
  | nil => exact ⟨values, rfl, heq⟩
  | cons b now ih =>
    obtain ⟨hb, hothers⟩ := List.forall_mem_cons.mp hnow
    rw [encodeAll_cons, List.append_assoc] at heq
    cases values with
    | nil => exact absurd (List.append_eq_nil_iff.mp heq.symm).1 (h b hb)
    | cons a values =>
      obtain ⟨ha, hvalues⟩ := List.forall_mem_cons.mp hfits
      have hdecode := c.decode_encode a (c.encodeAll values) ha
      rw [← encodeAll_cons, heq, c.decode_encode b _ hb] at hdecode
      obtain ⟨rfl, htail⟩ := Prod.mk.inj (Option.some.inj hdecode)
      obtain ⟨later, rfl, hlater⟩ := ih hvalues hothers htail.symm
      exact ⟨later, rfl, hlater⟩

theorem encodeAll_injective (h : ∀ a, c.Fits a → c.encode a ≠ []) {values values' : List α}
    (hfits : ∀ a ∈ values, c.Fits a) (hfits' : ∀ a ∈ values', c.Fits a)
    (heq : c.encodeAll values = c.encodeAll values') : values = values' := by
  have hrest : c.encodeAll values = c.encodeAll values' ++ [] := by rw [heq, List.append_nil]
  obtain ⟨later, rfl, hlater⟩ := exists_append_of_encodeAll_eq h hfits hfits' hrest
  cases later with
  | nil => exact List.append_nil _
  | cons a later =>
    have ha := hfits a (List.mem_append_right _ (List.mem_cons_self ..))
    exact absurd (List.append_eq_nil_iff.mp hlater).1 (h a ha)

end Streams

end Codec

end Dims.ByteCodec

namespace Dims.Serialize
open ByteCodec Codec

theorem extends_readMarked (width least : ℕ) : Extends (readMarked width least) := by
  intro bs n rest more h
  obtain ⟨⟨w, rest'⟩, hw, hcheck⟩ := Option.bind_eq_some_iff.mp h
  rw [readMarked, extends_takeBytes width _ _ _ more hw, Option.bind_some]
  split at hcheck
  case isTrue hleast =>
    cases hcheck
    rw [if_pos hleast]
  case isFalse => cases hcheck

theorem extends_readSize : Extends readSize := by
  intro bs n rest more h
  cases bs with
  | nil => cases h
  | cons chSize tail =>
    simp only [readSize, List.cons_append] at h ⊢
    split at h
    case isTrue hsmall =>
      cases h
      rw [if_pos hsmall]
    case isFalse hsmall =>
      rw [if_neg hsmall]
      split at h
      case isTrue hmark =>
        rw [if_pos hmark]
        exact extends_readMarked _ _ _ _ _ more h
      case isFalse hmark =>
        rw [if_neg hmark]
        split at h
        case isTrue hmark' =>
          rw [if_pos hmark']
          exact extends_readMarked _ _ _ _ _ more h
        case isFalse hmark' =>
          rw [if_neg hmark']
          exact extends_readMarked _ _ _ _ _ more h

theorem extends_compactSize : Extends compactSize.decode := by
  intro bs n rest more h
  obtain ⟨⟨m, rest'⟩, hm, hcheck⟩ := Option.bind_eq_some_iff.mp h
  change (readSize (bs ++ more)).bind _ = _
  rw [extends_readSize _ _ _ more hm, Option.bind_some]
  split at hcheck
  case isTrue hmax =>
    cases hcheck
    rw [if_pos hmax]
  case isFalse => cases hcheck

theorem extends_byteVector : Extends byteVector.decode := extends_bytes extends_compactSize

theorem extends_int32 : Extends int32.decode :=
  extends_imap (extends_imap (extends_uint 4) _ _ _) _ _ _

theorem extends_bitVec (n : ℕ) : Extends (bitVec n).decode := extends_imap (extends_uint n) _ _ _

end Dims.Serialize
