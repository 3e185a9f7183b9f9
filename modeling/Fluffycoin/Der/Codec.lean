import Fluffycoin.Der.Octets
import Mathlib.Data.List.Sort

/-!
# Combinators for tag-length-value encodings

Two kinds of encoding, as in the encoding rules:

* `Content α` encodes a value as a whole octet string: what stands inside a tagged element. Its
  decoder sees the content octets and nothing else.
* `Codec α` encodes a value as an element that can be followed by others: its decoder returns the
  rest of the input. No element is empty, which is a field.

`Content.tagged` makes an element of a content, `Codec.body` a content of an element, and between
them stand `pair` (the fields of a `SEQUENCE`), `sequenceOf`, `setOf` and `alt` (a `CHOICE`).
`via` carries an encoding along a conversion.

The law `ReadsBack r` says that decoding an encoding succeeds and gives a value related to the
encoded one by `r`. The relation is equality everywhere except below `setOf`, whose elements are
sorted by their encodings on the way out and therefore come back in another order. Every combinator
has a rule that derives its law from those of its parts.

The law `ReadsFront` is about inputs that are not encodings as well: what an element's decoder
accepts it accepts for the octets it consumed, whatever follows them. A tagged element has it for
the length octets alone, and a `CHOICE` has it when the identifier octets of the alternatives
(`StartsIn`) differ.
-/

namespace Der

variable {α β : Type}

/-- An encoding as content octets. -/
structure Content (α : Type) where
  enc : α → Octets
  dec : Octets → Option α

/-- An encoding as an element of a longer input. -/
structure Codec (α : Type) where
  enc : α → Octets
  dec : Octets → Option (α × Octets)
  enc_ne_nil : ∀ a, enc a ≠ []

/-- Decoding the content octets of `a` gives a value related to `a`. -/
def Content.ReadsBack (c : Content α) (r : α → α → Prop) : Prop :=
  ∀ a, ∃ a', c.dec (c.enc a) = some a' ∧ r a a'

/-- Decoding an element for `a` gives a value related to `a` and leaves what follows. -/
def Codec.ReadsBack (c : Codec α) (r : α → α → Prop) : Prop :=
  ∀ a rest, ∃ a', c.dec (c.enc a ++ rest) = some (a', rest) ∧ r a a'

/-- `c` refuses every element of `d`. -/
def Codec.Rejects (c : Codec α) (d : Codec β) : Prop :=
  ∀ b rest, c.dec (d.enc b ++ rest) = none

theorem Codec.ReadsBack.dec_eq {c : Codec α} (h : c.ReadsBack (· = ·)) (a : α) (rest : Octets) :
    c.dec (c.enc a ++ rest) = some (a, rest) := by
  obtain ⟨a', h', rfl⟩ := h a rest
  exact h'

/-! ## Primitive contents -/

/-- The octets themselves: `OCTET STRING` and the string types. -/
def octets : Content Octets := ⟨id, some⟩

/-- `INTEGER`. -/
def integer : Content Int := ⟨intOctets, octetsInt?⟩

/-- `BOOLEAN`, any octet. -/
def boolean : Content UInt8 where
  enc b := [b]
  dec
    | [b] => some b
    | _ => none

/-- `NULL`. -/
def null : Content Unit where
  enc _ := []
  dec
    | [] => some ()
    | _ => none

theorem octets_readsBack : octets.ReadsBack (· = ·) := fun a => ⟨a, rfl, rfl⟩

theorem integer_readsBack : integer.ReadsBack (· = ·) := fun a =>
  ⟨a, octetsInt?_intOctets a, rfl⟩

theorem boolean_readsBack : boolean.ReadsBack (· = ·) := fun a => ⟨a, rfl, rfl⟩

theorem null_readsBack : null.ReadsBack (· = ·) := fun a => ⟨a, rfl, rfl⟩

/-! ## Conversions -/

/-- Encode the image under `f`; decode through `g`, which may refuse. -/
def Content.via (c : Content α) (f : β → α) (g : α → Option β) : Content β where
  enc b := c.enc (f b)
  dec l := (c.dec l).bind g

/-- Encode the image under `f`; decode through `g`. -/
def Codec.via (c : Codec α) (f : β → α) (g : α → β) : Codec β where
  enc b := c.enc (f b)
  dec l := (c.dec l).map fun p => (g p.1, p.2)
  enc_ne_nil b := c.enc_ne_nil (f b)

theorem Content.ReadsBack.via {c : Content α} {r : α → α → Prop} {s : β → β → Prop}
    {f : β → α} {g : α → Option β} (hc : c.ReadsBack r)
    (h : ∀ b a', r (f b) a' → ∃ b', g a' = some b' ∧ s b b') : (c.via f g).ReadsBack s := by
  intro b
  obtain ⟨a', hdec, ha⟩ := hc (f b)
  obtain ⟨b', hg, hb⟩ := h b a' ha
  exact ⟨b', by simp only [Content.via, hdec, Option.bind_some, hg], hb⟩

theorem Content.ReadsBack.via_eq {c : Content α} {f : β → α} {g : α → Option β}
    (hc : c.ReadsBack (· = ·)) (h : ∀ b, g (f b) = some b) : (c.via f g).ReadsBack (· = ·) := by
  refine hc.via fun b a' ha => ?_
  subst ha
  exact ⟨b, h b, rfl⟩

theorem Codec.ReadsBack.via {c : Codec α} {r : α → α → Prop} {s : β → β → Prop}
    {f : β → α} {g : α → β} (hc : c.ReadsBack r) (h : ∀ b a', r (f b) a' → s b (g a')) :
    (c.via f g).ReadsBack s := by
  intro b rest
  obtain ⟨a', hdec, ha⟩ := hc (f b) rest
  exact ⟨g a', by simp only [Codec.via, hdec, Option.map_some], h b a' ha⟩

/-! ## Elements -/

/-- An element with the given identifier octet. -/
def Content.tagged (tag : UInt8) (c : Content α) : Codec α where
  enc a := tag :: (lengthOctets (c.enc a).length ++ c.enc a)
  dec
    | [] => none
    | t :: l =>
      if t = tag then
        (readLength l).bind fun (n, l) =>
          if n ≤ l.length then (c.dec (l.take n)).map fun a => (a, l.drop n) else none
      else none
  enc_ne_nil _ := List.cons_ne_nil _ _

/-- An element as the whole of a content. -/
def Codec.body (c : Codec α) : Content α where
  enc := c.enc
  dec l :=
    match c.dec l with
    | some (a, []) => some a
    | _ => none

theorem Content.ReadsBack.tagged {c : Content α} {r : α → α → Prop} (tag : UInt8)
    (hc : c.ReadsBack r) : (c.tagged tag).ReadsBack r := by
  intro a rest
  obtain ⟨a', hdec, ha⟩ := hc a
  have hlen : (c.enc a).length ≤ (c.enc a ++ rest).length := by simp
  refine ⟨a', ?_, ha⟩
  simp only [Content.tagged, List.cons_append, List.append_assoc, if_pos,
    readLength_lengthOctets, Option.bind_some, hlen, List.take_left, List.drop_left, hdec,
    Option.map_some]

theorem Codec.ReadsBack.body {c : Codec α} {r : α → α → Prop} (hc : c.ReadsBack r) :
    c.body.ReadsBack r := by
  intro a
  obtain ⟨a', hdec, ha⟩ := hc a []
  rw [List.append_nil] at hdec
  exact ⟨a', by simp only [Codec.body, hdec], ha⟩

/-- The rule for a `SEQUENCE` whose fields `f` and `g` convert from and to a structure. -/
theorem Codec.ReadsBack.sequence {c : Codec α} {f : β → α} {g : α → Option β} (tag : UInt8)
    (hc : c.ReadsBack (· = ·)) (h : ∀ b, g (f b) = some b) :
    ((c.body.via f g).tagged tag).ReadsBack (· = ·) :=
  (hc.body.via_eq h).tagged tag

theorem rejects_tagged {c : Content α} {d : Content β} {s t : UInt8} (h : t ≠ s) :
    (c.tagged s).Rejects (d.tagged t) := by
  intro b rest
  simp only [Content.tagged, List.cons_append, if_neg h]

/-! ## Several elements -/

/-- One element after the other. -/
def pair (c : Codec α) (d : Codec β) : Codec (α × β) where
  enc p := c.enc p.1 ++ d.enc p.2
  dec l := (c.dec l).bind fun (a, l) => (d.dec l).map fun (b, l) => ((a, b), l)
  enc_ne_nil p := List.append_ne_nil_of_left_ne_nil (c.enc_ne_nil p.1) _

theorem pair_readsBack {c : Codec α} {d : Codec β} {r : α → α → Prop} {s : β → β → Prop}
    (hc : c.ReadsBack r) (hd : d.ReadsBack s) :
    (pair c d).ReadsBack fun p q => r p.1 q.1 ∧ s p.2 q.2 := by
  intro p rest
  obtain ⟨a', hca, ha⟩ := hc p.1 (d.enc p.2 ++ rest)
  obtain ⟨b', hdb, hb⟩ := hd p.2 rest
  exact ⟨(a', b'), by simp only [pair, List.append_assoc, hca, Option.bind_some, hdb,
    Option.map_some], ha, hb⟩

theorem pair_readsBack_eq {c : Codec α} {d : Codec β} (hc : c.ReadsBack (· = ·))
    (hd : d.ReadsBack (· = ·)) : (pair c d).ReadsBack (· = ·) := by
  intro p rest
  obtain ⟨q, hdec, ha, hb⟩ := pair_readsBack hc hd p rest
  exact ⟨q, hdec, Prod.ext ha hb⟩

/-- Decode elements until the input ends, at most `fuel` of them. -/
def readAll (c : Codec α) : Nat → Octets → Option (List α)
  | _, [] => some []
  | 0, _ :: _ => none
  | fuel + 1, l => (c.dec l).bind fun (a, l) => (readAll c fuel l).map (a :: ·)

/-- `SEQUENCE OF`. -/
def sequenceOf (c : Codec α) : Content (List α) where
  enc as := as.flatMap c.enc
  dec l := readAll c l.length l

/-- `SET OF`: the elements in the order of their encodings. -/
def setOf (c : Codec α) : Content (List α) where
  enc as := (sequenceOf c).enc (as.mergeSort fun a b => decide (c.enc a ≤ c.enc b))
  dec := (sequenceOf c).dec

-- Each element takes at least one octet, so the number of octets left is fuel enough.
theorem readAll_flatMap {c : Codec α} (hc : c.ReadsBack (· = ·)) :
    ∀ (as : List α) (fuel : Nat), (as.flatMap c.enc).length ≤ fuel →
      readAll c fuel (as.flatMap c.enc) = some as
  | [], fuel, _ => by cases fuel <;> rfl
  | a :: as, fuel, hf => by
    obtain ⟨o, os, ho⟩ := List.exists_cons_of_ne_nil (c.enc_ne_nil a)
    rw [List.flatMap_cons, ho, List.cons_append, List.length_cons, List.length_append] at hf
    obtain ⟨n, rfl⟩ : ∃ n, fuel = n + 1 := ⟨fuel - 1, by omega⟩
    have ih := readAll_flatMap hc as n (by omega)
    have hdec := hc.dec_eq a (as.flatMap c.enc)
    rw [List.flatMap_cons]
    rw [ho, List.cons_append] at hdec ⊢
    simp only [readAll, hdec, Option.bind_some, ih, Option.map_some]

theorem sequenceOf_readsBack {c : Codec α} (hc : c.ReadsBack (· = ·)) :
    (sequenceOf c).ReadsBack (· = ·) :=
  fun as => ⟨as, readAll_flatMap hc as _ le_rfl, rfl⟩

theorem setOf_readsBack {c : Codec α} (hc : c.ReadsBack (· = ·)) :
    (setOf c).ReadsBack List.Perm :=
  fun _ => ⟨_, readAll_flatMap hc _ _ le_rfl, (List.mergeSort_perm _ _).symm⟩

/-! ## Alternatives -/

/-- `CHOICE` of two: the first that accepts. -/
def alt (c : Codec α) (d : Codec β) : Codec (α ⊕ β) where
  enc
    | .inl a => c.enc a
    | .inr b => d.enc b
  dec l :=
    match c.dec l with
    | some (a, l) => some (.inl a, l)
    | none => (d.dec l).map fun (b, l) => (.inr b, l)
  enc_ne_nil
    | .inl a => c.enc_ne_nil a
    | .inr b => d.enc_ne_nil b

theorem alt_readsBack {c : Codec α} {d : Codec β} {r : α → α → Prop} {s : β → β → Prop}
    (hc : c.ReadsBack r) (hd : d.ReadsBack s) (hcd : c.Rejects d) :
    (alt c d).ReadsBack (Sum.LiftRel r s)
  | .inl a, rest => by
    obtain ⟨a', hdec, ha⟩ := hc a rest
    exact ⟨.inl a', by simp only [alt, hdec], .inl ha⟩
  | .inr b, rest => by
    obtain ⟨b', hdec, hb⟩ := hd b rest
    exact ⟨.inr b', by simp only [alt, hcd b rest, hdec, Option.map_some], .inr hb⟩

theorem rejects_alt {γ : Type} {c : Codec α} {d : Codec β} {e : Codec γ} (hd : c.Rejects d)
    (he : c.Rejects e) : c.Rejects (alt d e)
  | .inl b, rest => hd b rest
  | .inr b, rest => he b rest

/-! ## What is decoded depends on what is consumed -/

/-- Whatever `c` accepts it accepts for the octets it consumed, with anything after them. -/
def Codec.ReadsFront (c : Codec α) : Prop :=
  ∀ l a rest, c.dec l = some (a, rest) →
    ∃ used, l = used ++ rest ∧ ∀ rest', c.dec (used ++ rest') = some (a, rest')

/-- Whatever `c` accepts starts with an octet of `s`. -/
def Codec.StartsIn (c : Codec α) (s : Set UInt8) : Prop :=
  ∀ l p, c.dec l = some p → ∃ t ∈ s, ∃ l', l = t :: l'

theorem readLength_eq_some {l rest : Octets} {n : Nat} (h : readLength l = some (n, rest)) :
    l = lengthOctets n ++ rest := by
  unfold readLength at h
  rw [Option.filter_eq_some_iff] at h
  exact (of_decide_eq_true h.2).symm

/-- What a tagged element accepts: the tag, the length octets and a content of that length. -/
theorem tagged_dec_eq_some {c : Content α} {tag : UInt8} {l rest : Octets} {a : α}
    (h : (c.tagged tag).dec l = some (a, rest)) :
    ∃ body, l = tag :: (lengthOctets body.length ++ (body ++ rest)) ∧ c.dec body = some a := by
  cases l with
  | nil => cases h
  | cons t l =>
    simp only [Content.tagged] at h
    split at h
    case isFalse => cases h
    case isTrue ht =>
      obtain ⟨⟨n, l'⟩, hlen, h⟩ := Option.bind_eq_some_iff.mp h
      simp only at h
      split at h
      case isFalse => cases h
      case isTrue hn =>
        obtain ⟨a', hdec, ha⟩ := Option.map_eq_some_iff.mp h
        obtain ⟨rfl, rfl⟩ := Prod.mk.inj ha
        refine ⟨l'.take n, ?_, hdec⟩
        rw [ht, readLength_eq_some hlen, List.take_append_drop, List.length_take,
          Nat.min_eq_left hn]

theorem tagged_dec {c : Content α} {body : Octets} {a : α} (tag : UInt8)
    (h : c.dec body = some a) (rest : Octets) :
    (c.tagged tag).dec (tag :: (lengthOctets body.length ++ (body ++ rest))) = some (a, rest) := by
  have hlen : body.length ≤ (body ++ rest).length := by simp
  simp only [Content.tagged, if_pos, readLength_lengthOctets, Option.bind_some, hlen,
    List.take_left, List.drop_left, h, Option.map_some]

theorem tagged_readsFront (tag : UInt8) (c : Content α) : (c.tagged tag).ReadsFront := by
  intro l a rest h
  obtain ⟨body, rfl, hdec⟩ := tagged_dec_eq_some h
  refine ⟨tag :: (lengthOctets body.length ++ body), by simp, fun rest' => ?_⟩
  rw [List.cons_append, List.append_assoc]
  exact tagged_dec tag hdec rest'

theorem tagged_startsIn (tag : UInt8) (c : Content α) : (c.tagged tag).StartsIn {tag} := by
  rintro l ⟨a, rest⟩ h
  obtain ⟨body, rfl, _⟩ := tagged_dec_eq_some h
  exact ⟨tag, rfl, _, rfl⟩

theorem Codec.ReadsFront.via {c : Codec α} (h : c.ReadsFront) (f : β → α) (g : α → β) :
    (c.via f g).ReadsFront := by
  intro l b rest hdec
  obtain ⟨⟨a, rest⟩, hc, hb⟩ := Option.map_eq_some_iff.mp hdec
  obtain ⟨rfl, rfl⟩ := Prod.mk.inj hb
  obtain ⟨used, hl, hused⟩ := h l a rest hc
  exact ⟨used, hl, fun rest' => by simp only [Codec.via, hused, Option.map_some]⟩

theorem alt_startsIn {c : Codec α} {d : Codec β} {s t : Set UInt8} (hc : c.StartsIn s)
    (hd : d.StartsIn t) : (alt c d).StartsIn (s ∪ t) := by
  intro l p h
  simp only [alt] at h
  cases hcl : c.dec l with
  | some q =>
    obtain ⟨u, hu, hl⟩ := hc l q hcl
    exact ⟨u, .inl hu, hl⟩
  | none =>
    rw [hcl] at h
    obtain ⟨q, hdl, _⟩ := Option.map_eq_some_iff.mp h
    obtain ⟨u, hu, hl⟩ := hd l q hdl
    exact ⟨u, .inr hu, hl⟩

theorem alt_readsFront {c : Codec α} {d : Codec β} {s t : Set UInt8} (hc : c.ReadsFront)
    (hd : d.ReadsFront) (hs : c.StartsIn s) (ht : d.StartsIn t) (hst : ∀ u ∈ s, u ∉ t) :
    (alt c d).ReadsFront := by
  intro l x rest h
  simp only [alt] at h
  cases hcl : c.dec l with
  | some p =>
    rw [hcl] at h
    obtain ⟨rfl, rfl⟩ := Prod.mk.inj (Option.some.inj h)
    obtain ⟨used, hl, hused⟩ := hc l p.1 p.2 hcl
    exact ⟨used, hl, fun rest' => by simp only [alt, hused]⟩
  | none =>
    rw [hcl] at h
    obtain ⟨p, hdl, hx⟩ := Option.map_eq_some_iff.mp h
    obtain ⟨rfl, rfl⟩ := Prod.mk.inj hx
    obtain ⟨used, hl, hused⟩ := hd l p.1 p.2 hdl
    refine ⟨used, hl, fun rest' => ?_⟩
    -- the second alternative accepts, so the first octet is none the first one starts with
    have hnone : c.dec (used ++ rest') = none := by
      by_contra hsome
      obtain ⟨q, hq⟩ := Option.ne_none_iff_exists'.mp hsome
      obtain ⟨u, hu, l₁, h₁⟩ := hs _ _ hq
      obtain ⟨v, hv, l₂, h₂⟩ := ht _ _ (hused rest')
      obtain ⟨rfl, -⟩ := List.cons.inj (h₁.symm.trans h₂)
      exact hst _ hu hv
    simp only [alt, hnone, hused, Option.map_some]

/-! ## Elements of any kind -/

/-- An element as its identifier octet and its content octets. -/
def element : Codec (UInt8 × Octets) where
  enc p := p.1 :: (lengthOctets p.2.length ++ p.2)
  dec
    | [] => none
    | t :: l =>
      (readLength l).bind fun (n, l) =>
        if n ≤ l.length then some ((t, l.take n), l.drop n) else none
  enc_ne_nil _ := List.cons_ne_nil _ _

theorem element_readsBack : element.ReadsBack (· = ·) := by
  intro p rest
  have hlen : p.2.length ≤ (p.2 ++ rest).length := by simp
  refine ⟨p, ?_, rfl⟩
  simp only [element, List.cons_append, List.append_assoc, readLength_lengthOctets,
    Option.bind_some, hlen, if_pos, List.take_left, List.drop_left]

theorem tagged_enc (c : Content α) (tag : UInt8) (a : α) :
    (c.tagged tag).enc a = element.enc (tag, c.enc a) := rfl

theorem Codec.ReadsBack.injective {c : Codec α} (h : c.ReadsBack (· = ·)) {a b : α}
    (heq : c.enc a = c.enc b) : a = b := by
  have ha := h.dec_eq a []
  rw [heq, h.dec_eq b []] at ha
  exact (congrArg Prod.fst (Option.some.inj ha)).symm

theorem Content.ReadsBack.injective {c : Content α} (h : c.ReadsBack (· = ·)) {a b : α}
    (heq : c.enc a = c.enc b) : a = b := by
  obtain ⟨a', ha, rfl⟩ := h a
  obtain ⟨b', hb, rfl⟩ := h b
  rw [heq, hb] at ha
  exact (Option.some.inj ha).symm

/-- The encoding of `a` is made of elements with the identifier octets `tags`. -/
def Codec.Tags (c : Codec α) (a : α) (tags : List UInt8) : Prop :=
  ∃ l, c.enc a = (sequenceOf element).enc l ∧ l.map Prod.fst = tags

theorem tagged_tags (c : Content α) (tag : UInt8) (a : α) : (c.tagged tag).Tags a [tag] :=
  ⟨[(tag, c.enc a)], (List.append_nil _).symm, rfl⟩

theorem pair_tags {c : Codec α} {d : Codec β} {p : α × β} {s t : List UInt8} (hc : c.Tags p.1 s)
    (hd : d.Tags p.2 t) : (pair c d).Tags p (s ++ t) := by
  obtain ⟨l, hl, rfl⟩ := hc
  obtain ⟨m, hm, rfl⟩ := hd
  refine ⟨l ++ m, ?_, List.map_append⟩
  simp only [pair, hl, hm, sequenceOf, List.flatMap_append]

/-- The octets are a `SEQUENCE` of elements with the identifier octets `tags`. -/
def IsSequence (octets : Octets) (tags : List UInt8) : Prop :=
  ∃ l, octets = element.enc (0x30, (sequenceOf element).enc l) ∧ l.map Prod.fst = tags

theorem Codec.Tags.isSequence {c : Codec α} {f : β → α} {b : β} {tags : List UInt8}
    (h : c.Tags (f b) tags) (g : α → Option β) :
    IsSequence (((c.body.via f g).tagged 0x30).enc b) tags := by
  obtain ⟨l, hl, htags⟩ := h
  exact ⟨l, by rw [tagged_enc, ← hl]; rfl, htags⟩

/-- **The identifier octets inside a `SEQUENCE` can be read off it**, whatever template it was made
by. -/
theorem IsSequence.unique {octets : Octets} {s t : List UInt8} (hs : IsSequence octets s)
    (ht : IsSequence octets t) : s = t := by
  obtain ⟨l, hl, rfl⟩ := hs
  obtain ⟨m, hm, rfl⟩ := ht
  have hbody : (sequenceOf element).enc l = (sequenceOf element).enc m :=
    congrArg Prod.snd (element_readsBack.injective (hl.symm.trans hm))
  rw [(sequenceOf_readsBack element_readsBack).injective hbody]

end Der
