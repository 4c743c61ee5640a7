import OpenWrtCompile.Overwall.ListPrecedence
import Mathlib.Data.List.Sort

/-!
# The black list of adblock

`luci-app-adblock-plus/root/etc/init.d/adblock` (25–80): `add_dns` turns the built-in lists and
`black.list` into lines `address=/domain/`, takes out those that `grep -w` finds in `adblock.conf` or in
`3rd.conf`, and then those of `white.list`. Each entry is used as a pattern there, its dots for any
byte. `gen` in `usr/share/adblock/adblock` (24–26) drops the white list from another file in the same
way.
-/

namespace OpenWrtCompile.Adblock
open OpenWrtCompile.Base OpenWrtCompile.Overwall

/-! ## The script -/

/-- What `add_dns` reads: two options, the lists, each line a domain or empty, and the lines of the two
files with rules, none where there is no such file. -/
structure Inputs where
  blockIos : Bool
  blockCnshort : Bool
  blackList : List (Option Domain)
  whiteList : List (Option Domain)
  adblock : List Bytes
  third : List Bytes

/-- The entry of `block_ios`. -/
def iosDomains : List Bytes := [ascii "mesu.apple.com"]

/-- The entries of `block_cnshort`. -/
def cnshortDomains : List Bytes :=
  [ascii "amemv.com", ascii "tiktokv.com", ascii "snssdk.com", ascii "douyin.com",
    ascii "ixigua.com", ascii "pstatp.com", ascii "ixiguavideo.com", ascii "v.kandian.qq.com",
    ascii "yximgs.com", ascii "gifshow.com", ascii "ksapisrv.com", ascii "kuaishoupay.com",
    ascii "ksyun.com", ascii "live.xycdn.com", ascii "danuoyi.alicdn.com", ascii "v.weishi.qq.com",
    ascii "pearvideo.com", ascii "miaopai.com", ascii "kuaishou.com", ascii "qupai.me",
    ascii "meipai.com", ascii "huoshan.com", ascii "ergengtv.com", ascii "baijiahao.baidu.com",
    ascii "xiongzhang.baidu.com"]

/-- The line of an entry: `sed -e 's:^:address=/:' -e 's:$:/:'`. -/
def addressLine (x : Bytes) : Bytes := ascii "address=" ++ 0x2F :: (x ++ [0x2F])

/-- `sort -u`. -/
def sortUnique (lines : List Bytes) : List Bytes :=
  (lines.mergeSort fun x y ↦ decide (x ≤ y)).dedup

/-- A byte of a word: a letter, a digit or `_`. -/
def isWordByte (c : UInt8) : Bool :=
  (0x61 ≤ c && c ≤ 0x7A) || (0x41 ≤ c && c ≤ 0x5A) || (0x30 ≤ c && c ≤ 0x39) || c = 0x5F

/-- `grep -w` finds a pattern of a fixed length in a line: a match without a byte of a word on either
side. -/
def grepWord (p : List (PatPlace UInt8)) (line : Bytes) : Bool :=
  (List.range (line.length + 1)).any fun k ↦
    startsWith p (line.drop k) && !(line.take k).getLast?.any isWordByte &&
      !(line.drop (k + p.length)).head?.any isWordByte

/-- The first match of a pattern taken out of a line: `s#$i##`. -/
def takeOut (p : List (PatPlace UInt8)) : Bytes → Bytes
  | [] => []
  | c :: l => if startsWith p (c :: l) then (c :: l).drop p.length else c :: takeOut p l

/-- `sed -i -e "s#$i##" -e '/^$/d'`. -/
def strip (i : Bytes) (lines : List Bytes) : List Bytes :=
  (lines.map (takeOut (wordPattern i))).filter (· ≠ [])

/-- `sed -e "/\/$i\//d" -e "/\.$i\//d"` deletes the line. -/
def whiteDrops (i line : Bytes) : Bool :=
  finds (.one 0x2F :: (wordPattern i ++ [.one 0x2F])) line ||
    finds (.one 0x2E :: (wordPattern i ++ [.one 0x2F])) line

/-- The loop over the words of `white.list`. -/
def dropWhite (whiteList : List (Option Domain)) (lines : List Bytes) : List Bytes :=
  (whiteList.filterMap id).foldl (fun lines w ↦ lines.filter fun l ↦ !whiteDrops w.text l) lines

namespace Inputs

variable (c : Inputs)

/-- The lines of `black.conf` before the edits. -/
def entries : List Bytes :=
  (if c.blockIos then iosDomains else []) ++ (if c.blockCnshort then cnshortDomains else []) ++
    c.blackList.map fun line ↦ (line.map Domain.text).getD []

/-- The word is in one of the two files with rules. -/
def found (i : Bytes) : Bool :=
  c.adblock.any (grepWord (wordPattern i)) || c.third.any (grepWord (wordPattern i))

/-- `black.conf` after `add_dns`, if there is one. -/
def addDns : Option (List Bytes) :=
  if c.entries = [] then none
  else
    let lines := sortUnique (c.entries.map addressLine)
    -- the words of the loop are read once, from the file before its edits
    let lines := lines.foldl (fun lines i ↦ if c.found i then strip i lines else lines) lines
    some (dropWhite c.whiteList lines)

end Inputs

/-- `gen` on the lines of `ad.conf`. -/
def gen (whiteList : List (Option Domain)) (lines : List Bytes) : List Bytes :=
  dropWhite whiteList lines

/-! ## The statement -/

namespace Inputs

variable (c : Inputs)

/-- The domains of the black list, the built-in ones included. -/
def blackDomains : List Bytes := c.entries.filter (· ≠ [])

/-- The domains of the white list. -/
def whiteDomains : List Domain := c.whiteList.filterMap id

/-- The line of the domain is in one of the two files, or the domain is under a white one. -/
def Covered (d : Bytes) : Prop :=
  addressLine d ∈ c.adblock ∨ addressLine d ∈ c.third ∨
    ∃ w ∈ c.whiteDomains, DnsConfig.Under d w.text

/-- A domain of the black list is missing only if it is covered, and no white one is left. -/
structure DropsOnlyCovered : Prop where
  covered : ∀ d ∈ c.blackDomains, addressLine d ∉ c.addDns.getD [] → c.Covered d
  white_removed : ∀ w ∈ c.whiteDomains, addressLine w.text ∉ c.addDns.getD []

/-- Some entry takes the domain out: one of the black list that fits it, each dot for any byte, and whose
line `grep -w` finds in the files, or one of the white list that fits it or what stands behind one of its
dots. -/
def Fitted (d : Bytes) : Prop :=
  (∃ e ∈ c.entries, c.found (addressLine e) = true ∧ Fits (wordPattern e) d) ∨
    ∃ w ∈ c.whiteDomains, Fits (wordPattern w.text) d ∨
      ∃ y z, d = y ++ 0x2E :: z ∧ Fits (wordPattern w.text) z

end Inputs

/-! ## One word -/

/-- No slash is in a word of bytes of domains. -/
theorem slash_not_mem {x : Bytes} (hx : x.all isDomainByte = true) : (0x2F : UInt8) ∉ x := by
  intro hmem
  exact absurd (List.all_eq_true.mp hx _ hmem) (by decide)

/-- The pattern of a line. -/
theorem wordPattern_addressLine (e : Bytes) :
    wordPattern (addressLine e) =
      wordPattern (ascii "address=") ++ .one 0x2F :: (wordPattern e ++ [.one 0x2F]) := by
  unfold addressLine wordPattern
  rw [List.map_append, List.map_cons, List.map_append]
  rfl

/-- A pattern that is found is found in a larger text, and so is its end. -/
theorem finds_of_finds_append {p q : List (PatPlace UInt8)} {l : Bytes}
    (h : finds (p ++ q) l = true) : finds q l = true := by
  obtain ⟨pre, m, post, rfl, hm⟩ := finds_iff.mp h
  obtain ⟨m₁, m₂, rfl, _, hq⟩ := fits_append.mp hm
  exact finds_iff.mpr ⟨pre ++ m₁, m₂, post, by simp, hq⟩

/-- A line finds the lines of the domains that fit its own. -/
theorem finds_addressLine (e : Bytes) {x : Bytes} (hx : x.all isDomainByte = true) :
    finds (wordPattern (addressLine e)) (addressLine x) = true ↔ Fits (wordPattern e) x := by
  have hfront : (0x2F : UInt8) ∉ ascii "address=" := by decide
  rw [wordPattern_addressLine]
  constructor
  · intro h
    exact (finds_between hfront (slash_not_mem hx) List.not_mem_nil).mp (finds_of_finds_append h)
  · intro h
    refine finds_iff.mpr ⟨[], addressLine x, [], by simp, ?_⟩
    exact fits_append.mpr ⟨ascii "address=", 0x2F :: (x ++ [0x2F]), rfl,
      fits_wordPattern_self _, fits_between.mpr ⟨x, rfl, h⟩⟩

/-- Nothing is taken out of a line where the pattern is not found. -/
theorem takeOut_of_not_finds {p : List (PatPlace UInt8)} {l : Bytes} (h : finds p l = false) :
    takeOut p l = l := by
  induction l with
  | nil => rfl
  | cons c l ih =>
    rw [finds, Bool.or_eq_false_iff] at h
    rw [takeOut, if_neg (by simp [h.1]), ih h.2]

/-- A pattern that fits a whole line empties it. -/
theorem takeOut_of_fits {p : List (PatPlace UInt8)} {l : Bytes} (h : Fits p l) :
    takeOut p l = [] := by
  cases l with
  | nil => rfl
  | cons c l =>
    have hstart : startsWith p (c :: l) = true := startsWith_iff.mpr ⟨c :: l, [], by simp, h⟩
    rw [takeOut, if_pos hstart]
    exact List.drop_eq_nil_of_le (List.Forall₂.length_eq h).ge

/-- A line without an entry that is fitted stays, the others are emptied. -/
theorem takeOut_addressLine (e : Bytes) {x : Bytes} (hx : x.all isDomainByte = true) :
    takeOut (wordPattern (addressLine e)) (addressLine x) =
      if finds (wordPattern (addressLine e)) (addressLine x) then [] else addressLine x := by
  split_ifs with hfinds
  · refine takeOut_of_fits ?_
    rw [wordPattern_addressLine]
    exact fits_append.mpr ⟨ascii "address=", 0x2F :: (x ++ [0x2F]), rfl, fits_wordPattern_self _,
      fits_between.mpr ⟨x, rfl, (finds_addressLine e hx).mp hfinds⟩⟩
  · exact takeOut_of_not_finds (Bool.eq_false_iff.mpr hfinds)

/-- The lines of entries. -/
def AddressLines (lines : List Bytes) : Prop :=
  ∀ l ∈ lines, ∃ x : Bytes, x.all isDomainByte = true ∧ l = addressLine x

/-- On lines of entries, a word deletes those that it finds. -/
theorem strip_addressLine (e : Bytes) {lines : List Bytes} (h : AddressLines lines) :
    strip (addressLine e) lines =
      lines.filter fun l ↦ !finds (wordPattern (addressLine e)) l := by
  unfold strip
  induction lines with
  | nil => rfl
  | cons l lines ih =>
    obtain ⟨x, hx, rfl⟩ := h l List.mem_cons_self
    have hne : addressLine x ≠ [] := by simp [addressLine]
    rw [List.map_cons, takeOut_addressLine e hx, List.filter_cons, List.filter_cons,
      ih fun l hl ↦ h l (List.mem_cons_of_mem _ hl)]
    cases finds (wordPattern (addressLine e)) (addressLine x)
    · rw [if_neg Bool.false_ne_true, if_pos (by simp [hne]), Bool.not_false, if_pos rfl]
    · rw [if_pos rfl, if_neg (by simp), Bool.not_true, if_neg Bool.false_ne_true]

/-- What one word of the loop deletes. -/
def Inputs.loopDrops (c : Inputs) (i line : Bytes) : Bool :=
  c.found i && finds (wordPattern i) line

/-! ## The file in the end -/

namespace Inputs

variable (c : Inputs)

/-- The loop over the words of the file deletes lines. -/
theorem foldl_strip (words : List Bytes) {lines : List Bytes} (hwords : AddressLines words)
    (h : AddressLines lines) :
    words.foldl (fun lines i ↦ if c.found i then strip i lines else lines) lines =
      runEdits (words.flatMap fun i ↦ [.delete (c.loopDrops i)]) lines := by
  induction words generalizing lines with
  | nil => rfl
  | cons i words ih =>
    obtain ⟨e, -, rfl⟩ := hwords i List.mem_cons_self
    have hstep : (if c.found (addressLine e) then strip (addressLine e) lines else lines) =
        lines.filter fun l ↦ !c.loopDrops (addressLine e) l := by
      unfold loopDrops
      cases c.found (addressLine e)
      · simp
      · rw [if_pos rfl, strip_addressLine e h]
        simp
    rw [List.foldl_cons, hstep, List.flatMap_cons, runEdits_append, runEdits_delete, runEdits_nil]
    exact ih (fun l hl ↦ hwords l (List.mem_cons_of_mem _ hl)) fun l hl ↦
      h l (List.mem_filter.mp hl).1

end Inputs

/-- What the loop over the white list leaves. -/
theorem mem_dropWhite {whiteList : List (Option Domain)} {lines : List Bytes} {l : Bytes} :
    l ∈ dropWhite whiteList lines ↔
      l ∈ lines ∧ ∀ w ∈ whiteList.filterMap id, whiteDrops w.text l = false := by
  unfold dropWhite
  induction whiteList.filterMap id generalizing lines with
  | nil => simp
  | cons w ws ih =>
    rw [List.foldl_cons, ih, List.mem_filter, Bool.not_eq_true', List.forall_mem_cons, and_assoc]

/-- A word of the white list deletes the lines of the domains that fit it, and of those that fit it
behind one of their dots. -/
theorem whiteDrops_addressLine (w : Bytes) {x : Bytes} (hx : x.all isDomainByte = true) :
    whiteDrops w (addressLine x) = true ↔
      Fits (wordPattern w) x ∨ ∃ y z, x = y ++ 0x2E :: z ∧ Fits (wordPattern w) z := by
  have hfront : (0x2F : UInt8) ∉ ascii "address=" := by decide
  have hdot : (0x2E : UInt8) ∉ ascii "address=" := by decide
  unfold whiteDrops addressLine
  rw [Bool.or_eq_true, finds_between hfront (slash_not_mem hx) List.not_mem_nil,
    finds_behind (by decide) hfront hdot (slash_not_mem hx) List.not_mem_nil]

/-- `gen` leaves no line of a white domain. -/
theorem not_mem_gen {whiteList : List (Option Domain)} {w : Domain}
    (h : some w ∈ whiteList) (lines : List Bytes) : addressLine w.text ∉ gen whiteList lines := by
  intro hmem
  have hw : w ∈ whiteList.filterMap id := List.mem_filterMap.mpr ⟨some w, h, rfl⟩
  have hdrops : whiteDrops w.text (addressLine w.text) = true :=
    (whiteDrops_addressLine w.text (Bool.and_eq_true_iff.mp w.valid).2).mpr
      (Or.inl (fits_wordPattern_self _))
  rw [(mem_dropWhite.mp hmem).2 w hw] at hdrops
  cases hdrops

namespace Inputs

variable (c : Inputs)

/-- The entries hold bytes of domains only. -/
theorem all_of_mem_entries {x : Bytes} (h : x ∈ c.entries) : x.all isDomainByte = true := by
  have hios : ∀ x ∈ iosDomains, x.all isDomainByte = true := by decide
  have hshort : ∀ x ∈ cnshortDomains, x.all isDomainByte = true := by decide
  unfold entries at h
  rw [List.mem_append, List.mem_append] at h
  obtain (h | h) | h := h
  · split_ifs at h with hon
    · exact hios x h
    · exact absurd h List.not_mem_nil
  · split_ifs at h with hon
    · exact hshort x h
    · exact absurd h List.not_mem_nil
  · obtain ⟨line, -, rfl⟩ := List.mem_map.mp h
    cases line with
    | none => rfl
    | some d => exact (Bool.and_eq_true_iff.mp d.valid).2

/-- The words of the loop. -/
theorem mem_sortUnique {lines : List Bytes} {l : Bytes} : l ∈ sortUnique lines ↔ l ∈ lines := by
  unfold sortUnique
  rw [List.mem_dedup, List.mem_mergeSort]

/-- The file before the loop. -/
theorem addressLines_sortUnique : AddressLines (sortUnique (c.entries.map addressLine)) := by
  intro l hl
  obtain ⟨x, hx, rfl⟩ := List.mem_map.mp (mem_sortUnique.mp hl)
  exact ⟨x, c.all_of_mem_entries hx, rfl⟩

/-- The line of an entry is in the file in the end unless some entry takes it out. -/
theorem addressLine_mem_addDns {x : Bytes} (hx : x ∈ c.entries) :
    addressLine x ∈ c.addDns.getD [] ↔ ¬ c.Fitted x := by
  have hall := c.all_of_mem_entries hx
  have hne : c.entries ≠ [] := List.ne_nil_of_mem hx
  have hlines := c.addressLines_sortUnique
  unfold addDns
  rw [if_neg hne]
  dsimp only
  rw [Option.getD_some, mem_dropWhite, c.foldl_strip _ hlines hlines,
    isBlock_deletes c.loopDrops]
  have hmem : addressLine x ∈ sortUnique (c.entries.map addressLine) :=
    mem_sortUnique.mpr (List.mem_map_of_mem hx)
  have hloop : ((sortUnique (c.entries.map addressLine)).any fun i ↦
      c.loopDrops i (addressLine x)) = true ↔
      ∃ e ∈ c.entries, c.found (addressLine e) = true ∧ Fits (wordPattern e) x := by
    rw [List.any_eq_true]
    constructor
    · rintro ⟨i, hi, hdrops⟩
      obtain ⟨e, he, rfl⟩ := List.mem_map.mp (mem_sortUnique.mp hi)
      obtain ⟨hfound, hfinds⟩ := Bool.and_eq_true_iff.mp hdrops
      exact ⟨e, he, hfound, (finds_addressLine e hall).mp hfinds⟩
    · rintro ⟨e, he, hfound, hfits⟩
      exact ⟨addressLine e, mem_sortUnique.mpr (List.mem_map_of_mem he),
        Bool.and_eq_true_iff.mpr ⟨hfound, (finds_addressLine e hall).mpr hfits⟩⟩
  unfold Fitted
  rw [← hloop]
  simp only [hmem, true_and, List.not_mem_nil, or_false, not_or, Bool.not_eq_true, not_exists,
    not_and, whiteDomains]
  refine and_congr_right fun _ ↦ forall₂_congr fun w _ ↦ ?_
  rw [← Bool.not_eq_true, whiteDrops_addressLine w.text hall]
  simp [not_or]

/-- No white domain is left. -/
theorem white_not_mem_addDns {w : Domain} (hw : w ∈ c.whiteDomains) :
    addressLine w.text ∉ c.addDns.getD [] := by
  unfold addDns
  split_ifs
  · exact List.not_mem_nil
  · dsimp only
    obtain ⟨line, hline, hid⟩ := List.mem_filterMap.mp hw
    obtain rfl : line = some w := hid
    exact not_mem_gen hline _

/-- A domain. -/
theorem valid_dotted :
    (ascii "ad.x.com" ≠ [] && (ascii "ad.x.com").all isDomainByte) = true := by decide

/-- Another one, with a letter in the place of the dot. -/
theorem valid_undotted :
    (ascii "adsx.com" ≠ [] && (ascii "adsx.com").all isDomainByte) = true := by decide

/-- Both are in the black list, and the rules have the first one. -/
def dotted : Inputs where
  blockIos := false
  blockCnshort := false
  blackList := [some ⟨ascii "ad.x.com", valid_dotted⟩, some ⟨ascii "adsx.com", valid_undotted⟩]
  whiteList := []
  adblock := [ascii "address=/ad.x.com/"]
  third := []

end Inputs

end OpenWrtCompile.Adblock
