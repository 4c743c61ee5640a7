import OpenWrtCompile.Server.Cache
import Mathlib.Data.List.Perm.Basic

/-!
# The block list and the firewall

`shadowsocksr-libev/src/server/acl.c:97–316`, run as root on Linux: each address on the block list
has a rule in the firewall, which a shell installs and removes. An address is known by its text; the
shell is a log of the commands it was sent.
-/

namespace OpenWrtCompile.Server
open OpenWrtCompile.Base

universe u w

/-- `mode`. -/
inductive FirewallMode
  | none | iptables | firewalld
  deriving DecidableEq, Repr

/-- A command that is sent to the shell. What `cli` holds before it is written is not known. -/
inductive Command (α : Type u)
  | addRule (mode : FirewallMode) (addr : α)
  | removeRule (mode : FirewallMode) (addr : α)
  | uninitialised
  deriving DecidableEq, Repr

/-- The block list, the firewall mode, whether `shell_stdin` is open, and what it was sent. -/
structure BlockList (α : Type u) (τ : Type w) where
  cache : Cache α Int τ
  mode : FirewallMode
  shell : Bool
  commands : List (Command α)

/-- What `init_firewall` finds: how `firewall-cmd --version` and `iptables -L` end, where they can be
started, and whether the shell can be started. -/
structure Probe where
  firewalld : Option Bool
  iptables : Option Bool
  shell : Bool

/-- `MAX_TRIES`. -/
def maxTries : Int := 64

/-- The capacity that `init_block_list` gives to the cache. -/
def blockListSize : Nat := 256

variable {α : Type u} {τ : Type w}

/-- `init_firewall`, with the mode and the shell it leaves. -/
def initFirewall (p : Probe) : FirewallMode × Bool :=
  match p.firewalld with
  | .none => (.none, false)
  | some true => (.firewalld, p.shell)
  | some false =>
    match p.iptables with
    | .none => (.none, false)
    | some true => (.iptables, p.shell)
    | some false => (.none, p.shell)

/-- `init_block_list`. -/
def initBlockList (firewall : Bool) (p : Probe) : BlockList α τ :=
  let r := if firewall then initFirewall p else (.none, false)
  ⟨cacheCreate blockListSize, r.1, r.2, []⟩

/-- `run_cmd`. -/
def BlockList.runCmd (s : BlockList α τ) (cmd : Command α) : BlockList α τ :=
  if s.shell then { s with commands := s.commands ++ [cmd] } else s

/-- `set_firewall_rule` for the text of an address. -/
def BlockList.setFirewallRule (s : BlockList α τ) (addr : α) (add : Bool) : BlockList α τ :=
  match s.mode with
  | .none => s.runCmd .uninitialised
  | mode => s.runCmd (if add then .addRule mode addr else .removeRule mode addr)

/-- `free_firewall_rule` for what the cache frees. -/
def BlockList.freeRules (s : BlockList α τ) (freed : List (α × Int)) : BlockList α τ :=
  freed.foldl (fun s e ↦ s.setFirewallRule e.1 false) s

section Operations

variable [DecidableEq α]

/-- `*count` of an address is overwritten in place. -/
def BlockList.setCount (s : BlockList α τ) (addr : α) (count : Int) : BlockList α τ :=
  { s with cache := { s.cache with
      entries := s.cache.entries.map fun e ↦
        if e.1 = addr then (e.1, { e.2 with data := some count }) else e } }

/-- `check_block_list`, with what it returns. -/
def checkBlockList (s : BlockList α τ) (addr : α) (now : τ) : BlockList α τ × Bool :=
  let exist := cacheKeyExist s.cache addr now
  if exist.2 then
    let r := cacheLookup exist.1 addr now
    ({ s with cache := r.1 }, r.2.any fun count ↦ maxTries < count)
  else ({ s with cache := exist.1 }, false)

/-- `update_block_list`, with what it returns; `memory` is whether there is memory for an entry. -/
def updateBlockList (s : BlockList α τ) (addr : α) (errLevel : Int) (now : τ) (memory : Bool) :
    BlockList α τ × Bool :=
  let exist := cacheKeyExist s.cache addr now
  if exist.2 then
    let r := cacheLookup exist.1 addr now
    let s := { s with cache := r.1 }
    match r.2 with
    | none => (s, false)
    | some count =>
      if maxTries < count then (s, true) else (s.setCount addr (count + errLevel), false)
  else if 0 < errLevel then
    let r := cacheInsert exist.1 addr (some 1) now memory
    let s := BlockList.freeRules { s with cache := r.1 } r.2
    if s.mode ≠ .none then (s.setFirewallRule addr true, false) else (s, false)
  else ({ s with cache := exist.1 }, false)

/-- `remove_from_block_list`. -/
def removeFromBlockList (s : BlockList α τ) (addr : α) : BlockList α τ :=
  let r := cacheRemove s.cache addr
  BlockList.freeRules { s with cache := r.1 } r.2

/-- `clear_block_list`: an hour is 3600 seconds. -/
def clearBlockList [LinearOrder τ] [Sub τ] [OfNat τ 3600] (s : BlockList α τ) (now : τ) :
    BlockList α τ :=
  let r := cacheClear s.cache now 3600
  BlockList.freeRules { s with cache := r.1 } r.2

/-- A call. -/
inductive BlockEvent (α : Type u) (τ : Type w)
  | check (addr : α) (now : τ)
  | update (addr : α) (errLevel : Int) (now : τ) (memory : Bool)
  | remove (addr : α)
  | clear (now : τ)

/-- One call. -/
def blockStep [LinearOrder τ] [Sub τ] [OfNat τ 3600] (s : BlockList α τ) :
    BlockEvent α τ → Option (BlockList α τ)
  | .check addr now => some (checkBlockList s addr now).1
  | .update addr errLevel now memory => some (updateBlockList s addr errLevel now memory).1
  | .remove addr => some (removeFromBlockList s addr)
  | .clear now => some (clearBlockList s now)

/-! ## The rules in the firewall -/

/-- What a command does to the addresses with a rule, one place in the list for each rule. -/
def Command.apply (rules : List α) : Command α → List α
  | .addRule _ addr => rules ++ [addr]
  | .removeRule _ addr => rules.erase addr
  | .uninitialised => rules

/-- The addresses with a rule, after all commands. -/
def BlockList.installed (s : BlockList α τ) : List α := s.commands.foldl Command.apply []

/-- The addresses on the block list. -/
def BlockList.keys (s : BlockList α τ) : List α := s.cache.entries.map Prod.fst

/-- With the firewall on, each address of the list has one rule and no other address has one; with
the firewall off, the shell has been sent nothing. -/
def BlockList.Consistent (s : BlockList α τ) : Prop :=
  if s.mode = .none then s.commands = [] else s.installed.Perm s.keys

/-- The call frees an entry of the cache. -/
def BlockList.Frees [LinearOrder τ] [Sub τ] [OfNat τ 3600] (s : BlockList α τ) :
    BlockEvent α τ → Prop
  | .check _ _ => False
  | .update addr errLevel _ memory =>
    addr ∉ s.keys ∧ 0 < errLevel ∧ memory = true ∧ blockListSize ≤ s.keys.length + 1
  | .remove addr => addr ∈ s.keys
  | .clear now => ∃ e ∈ s.cache.entries, e.2.olderThan now 3600 = true

/-- With the firewall on, a new address finds memory for an entry exactly where the shell is open;
with the firewall off and the shell open, no entry is freed. -/
def BlockList.Fits [LinearOrder τ] [Sub τ] [OfNat τ 3600] (s : BlockList α τ)
    (e : BlockEvent α τ) : Prop :=
  if s.mode = .none then s.shell = true → ¬ s.Frees e
  else ∀ addr errLevel now memory, e = .update addr errLevel now memory →
    addr ∉ s.keys → 0 < errLevel → memory = s.shell

/-- Distinct addresses with a count each, in a cache of the given size, and nothing sent to a shell
that is not open. -/
structure BlockList.Inv (s : BlockList α τ) : Prop where
  nodup : s.keys.Nodup
  counts : ∀ e ∈ s.cache.entries, ∃ n, e.2.data = some n
  size : s.cache.maxEntries = blockListSize
  closed : s.shell = false → s.commands = []

/-! ## The commands -/

/-- The command that `free_firewall_rule` sends. -/
def BlockList.removal (s : BlockList α τ) (addr : α) : Command α :=
  match s.mode with
  | .none => .uninitialised
  | mode => .removeRule mode addr

omit [DecidableEq α] in
/-- Freeing an entry sends one command where the shell is open. -/
theorem setFirewallRule_false (s : BlockList α τ) (addr : α) :
    s.setFirewallRule addr false =
      { s with commands := s.commands ++ (if s.shell then [s.removal addr] else []) } := by
  obtain ⟨cache, mode, shell, commands⟩ := s
  unfold BlockList.setFirewallRule BlockList.removal BlockList.runCmd
  cases mode <;> cases shell <;> simp

omit [DecidableEq α] in
/-- Freeing sends one command for each entry. -/
theorem freeRules_eq (s : BlockList α τ) (freed : List (α × Int)) :
    s.freeRules freed = { s with commands := s.commands ++
      (if s.shell then freed.map (fun e ↦ s.removal e.1) else []) } := by
  induction freed generalizing s with
  | nil =>
    unfold BlockList.freeRules
    simp
  | cons e freed ih =>
    have hcons : s.freeRules (e :: freed) = (s.setFirewallRule e.1 false).freeRules freed := rfl
    rw [hcons, ih, setFirewallRule_false]
    cases h : s.shell <;> simp [BlockList.removal]

/-- What the shell is sent when rules are removed. -/
theorem foldl_removeRule (mode : FirewallMode) (freed : List α) (rules : List α) :
    (freed.map (Command.removeRule mode)).foldl Command.apply rules = freed.foldl List.erase rules := by
  rw [List.foldl_map]
  rfl

/-- Removing rules one after the other. -/
theorem foldl_erase_perm {l rest : List α} (freed : List α) (h : l.Perm (freed ++ rest)) :
    (freed.foldl List.erase l).Perm rest := by
  induction freed generalizing l with
  | nil => exact h
  | cons a freed ih =>
    apply ih
    have herase := h.erase a
    rwa [List.cons_append, List.erase_cons_head] at herase

/-- With the firewall on and the shell open, freed entries lose their rules. -/
theorem installed_freeRules {s : BlockList α τ} (hmode : s.mode ≠ .none) (hshell : s.shell = true)
    (freed : List (α × Int)) :
    (s.freeRules freed).installed = (freed.map Prod.fst).foldl List.erase s.installed := by
  have hremoval : ∀ e : α × Int, s.removal e.1 = .removeRule s.mode e.1 := by
    intro e
    unfold BlockList.removal
    cases h : s.mode with
    | none => exact absurd h hmode
    | iptables => rfl
    | firewalld => rfl
  rw [freeRules_eq, ← foldl_removeRule s.mode]
  unfold BlockList.installed
  simp only [hshell, if_true, List.foldl_append, hremoval, List.map_map, Function.comp_def]

/-! ## What the cache calls leave -/

/-- Freed entries and those left are the entries there were. -/
structure Splits (s : BlockList α τ) (c : Cache α Int τ) (freed : List (α × Int)) : Prop where
  perm : s.keys.Perm (freed.map Prod.fst ++ c.entries.map Prod.fst)
  counts : ∀ e ∈ c.entries, ∃ n, e.2.data = some n
  size : c.maxEntries = blockListSize

variable {s : BlockList α τ}

/-- With the firewall on, the list is consistent as before; with the firewall off it is where the
shell is not open or nothing is freed. -/
theorem free_step (hi : s.Inv) (hs : s.Consistent) {c : Cache α Int τ} {freed : List (α × Int)}
    (h : Splits s c freed) :
    (BlockList.freeRules { s with cache := c } freed).Inv ∧
      ((BlockList.freeRules { s with cache := c } freed).Consistent ↔
        (s.mode = .none → s.shell = true → freed = [])) := by
  constructor
  · rw [freeRules_eq]
    constructor
    · have hn := h.perm.nodup_iff.mp hi.nodup
      exact (List.nodup_append.mp hn).2.1
    · exact h.counts
    · exact h.size
    · intro hshell
      have hshell' : s.shell = false := hshell
      simp only [hshell', Bool.false_eq_true, if_false, List.append_nil]
      exact hi.closed hshell'
  · unfold BlockList.Consistent at hs ⊢
    have hmode : (BlockList.freeRules { s with cache := c } freed).mode = s.mode := by
      rw [freeRules_eq]
    rw [hmode]
    by_cases hoff : s.mode = .none
    · rw [if_pos hoff] at hs ⊢
      rw [freeRules_eq]
      cases hshell : s.shell <;> simp [hs, hoff]
    · rw [if_neg hoff] at hs ⊢
      have hkeys : (BlockList.freeRules { s with cache := c } freed).keys =
          c.entries.map Prod.fst := by
        rw [freeRules_eq]
        rfl
      refine ⟨fun _ hnone ↦ absurd hnone hoff, fun _ ↦ ?_⟩
      rw [hkeys]
      by_cases hshell : s.shell = true
      · rw [@installed_freeRules α τ _ { s with cache := c } hoff hshell]
        exact foldl_erase_perm _ (hs.trans h.perm)
      · -- nothing was ever installed, so nothing is on the list
        have hclosed := hi.closed (Bool.not_eq_true _ ▸ hshell)
        have hnil : s.keys = [] := by
          unfold BlockList.installed at hs
          rw [hclosed] at hs
          exact List.perm_nil.mp hs.symm
        have hboth := h.perm
        rw [hnil] at hboth
        have hempty := List.append_eq_nil_iff.mp (List.perm_nil.mp hboth.symm)
        rw [hempty.2, freeRules_eq]
        unfold BlockList.installed
        simp only [hshell, Bool.false_eq_true, if_false, List.append_nil, hclosed]
        exact List.Perm.refl _

omit [DecidableEq α] in
/-- Entries with data have their addresses among those that are freed with them. -/
theorem map_fst_freeCb {es : List (α × CacheEntry Int τ)} (h : ∀ e ∈ es, ∃ n, e.2.data = some n) :
    (es.flatMap freeCb).map Prod.fst = es.map Prod.fst := by
  induction es with
  | nil => rfl
  | cons e es ih =>
    obtain ⟨n, hn⟩ := h e List.mem_cons_self
    have hfree : freeCb e = [(e.1, n)] := by
      unfold freeCb
      rw [hn]
      rfl
    rw [List.flatMap_cons, hfree, List.map_append, ih fun d hd ↦ h d (List.mem_cons_of_mem _ hd)]
    rfl

omit [DecidableEq α] in
/-- Entries with data free something. -/
theorem flatMap_freeCb_eq_nil {es : List (α × CacheEntry Int τ)}
    (h : ∀ e ∈ es, ∃ n, e.2.data = some n) : es.flatMap freeCb = [] ↔ es = [] := by
  have hmap := map_fst_freeCb h
  constructor
  · intro hnil
    rw [hnil] at hmap
    exact List.map_eq_nil_iff.mp hmap.symm
  · intro hnil
    rw [hnil]
    rfl

omit [DecidableEq α] in
/-- A call that frees and keeps entries of the cache. -/
theorem splits_of_live (hi : s.Inv) {c : Cache α Int τ} {freed : List (α × Int)}
    (hlive : (freed ++ c.live).Perm s.cache.live)
    (hcounts : ∀ e ∈ c.entries, ∃ n, e.2.data = some n)
    (hsize : c.maxEntries = s.cache.maxEntries) : Splits s c freed where
  perm := by
    have hmap := (hlive.map Prod.fst).symm
    unfold Cache.live at hmap
    rw [List.map_append, map_fst_freeCb hcounts, map_fst_freeCb hi.counts] at hmap
    exact hmap
  counts := hcounts
  size := by rw [hsize, hi.size]

/-- The same addresses in another order, with other times and counts. -/
structure SameKeys (c d : Cache α Int τ) : Prop where
  keys : (d.entries.map Prod.fst).Perm (c.entries.map Prod.fst)
  counts : (∀ e ∈ c.entries, ∃ n, e.2.data = some n) → ∀ e ∈ d.entries, ∃ n, e.2.data = some n
  size : d.maxEntries = c.maxEntries

omit [DecidableEq α] in
theorem SameKeys.trans {c d e : Cache α Int τ} (h : SameKeys c d) (g : SameKeys d e) :
    SameKeys c e :=
  ⟨g.keys.trans h.keys, fun hc ↦ g.counts (h.counts hc), g.size.trans h.size⟩

/-- An address that is found. -/
theorem sameKeys_touch (c : Cache α Int τ) (addr : α) (now : τ) : SameKeys c (c.touch addr now) where
  keys := Lru.map_fst_refresh _ _ _
  counts h e he := by
    rcases Lru.mem_of_mem_refresh he with hold | ⟨d, hd, hnew⟩
    · exact h e hold
    · rw [hnew]
      exact h (addr, d) hd
  size := rfl

/-- A new count. -/
theorem sameKeys_setCount (s : BlockList α τ) (addr : α) (count : Int) :
    SameKeys s.cache (s.setCount addr count).cache where
  keys := by
    unfold BlockList.setCount
    simp only [List.map_map]
    have hfst : ∀ e : α × CacheEntry Int τ,
        (Prod.fst ∘ fun e ↦ if e.1 = addr then (e.1, { e.2 with data := some count }) else e) e =
          e.1 := by
      intro e
      rw [Function.comp_apply]
      split <;> rfl
    rw [List.map_congr_left fun e _ ↦ hfst e]
  counts h e he := by
    obtain ⟨d, hd, hde⟩ := List.mem_map.mp he
    rw [← hde]
    split
    · exact ⟨count, rfl⟩
    · exact h d hd
  size := rfl

/-- A call that changes no addresses. -/
theorem same_step (hi : s.Inv) (hs : s.Consistent) {c : Cache α Int τ} (h : SameKeys s.cache c) :
    BlockList.Inv { s with cache := c } ∧ BlockList.Consistent { s with cache := c } := by
  have hsplit : Splits s c [] := ⟨h.keys.symm, h.counts hi.counts, h.size.trans hi.size⟩
  have hstep := free_step hi hs hsplit
  exact ⟨hstep.1, hstep.2.mpr fun _ _ ↦ rfl⟩

/-- `check_block_list` changes no addresses. -/
theorem check_step (hi : s.Inv) (hs : s.Consistent) (addr : α) (now : τ) :
    (checkBlockList s addr now).1.Inv ∧ (checkBlockList s addr now).1.Consistent := by
  have hone := sameKeys_touch s.cache addr now
  unfold checkBlockList
  simp only
  split
  · exact same_step hi hs (hone.trans (sameKeys_touch _ addr now))
  · exact same_step hi hs hone

/-- `remove_from_block_list` frees the entry of an address that is on the list. -/
theorem remove_step (hi : s.Inv) (hs : s.Consistent) (addr : α) :
    (removeFromBlockList s addr).Inv ∧
      ((removeFromBlockList s addr).Consistent ↔
        (s.mode = .none → s.shell = true → addr ∉ s.keys)) := by
  have hsplit : Splits s (cacheRemove s.cache addr).1 (cacheRemove s.cache addr).2 :=
    splits_of_live hi (live_remove s.cache.entries addr)
      (fun e he ↦ hi.counts e (Lru.mem_of_mem_remove he)) rfl
  obtain ⟨hinv, hcons⟩ := free_step hi hs hsplit
  refine ⟨hinv, hcons.trans ?_⟩
  have hfreed : (cacheRemove s.cache addr).2 = [] ↔ addr ∉ s.keys := by
    unfold cacheRemove BlockList.keys
    simp only
    cases hl : Lru.lookup s.cache.entries addr with
    | none => simpa using Lru.not_mem_of_lookup hl
    | some e =>
      have hmem := Lru.mem_of_lookup hl
      have hone := @flatMap_freeCb_eq_nil α τ [(addr, e)] fun d hd ↦ by
        rw [List.mem_singleton.mp hd]
        exact hi.counts _ hmem
      rw [Option.toList_some, List.flatMap_singleton, ← List.flatMap_singleton freeCb, hone]
      refine ⟨fun h ↦ absurd h (List.cons_ne_nil _ _), fun h ↦ absurd ?_ h⟩
      exact List.mem_map_of_mem hmem
  rw [hfreed]

/-- `clear_block_list` frees the old entries. -/
theorem clear_step [LinearOrder τ] [Sub τ] [OfNat τ 3600] (hi : s.Inv) (hs : s.Consistent)
    (now : τ) :
    (clearBlockList s now).Inv ∧
      ((clearBlockList s now).Consistent ↔
        (s.mode = .none → s.shell = true →
          ¬ ∃ e ∈ s.cache.entries, e.2.olderThan now 3600 = true)) := by
  have hsplit : Splits s (cacheClear s.cache now 3600).1 (cacheClear s.cache now 3600).2 :=
    splits_of_live hi (live_filter s.cache.entries fun e ↦ e.2.olderThan now 3600)
      (fun e he ↦ hi.counts e (List.mem_of_mem_filter he)) rfl
  obtain ⟨hinv, hcons⟩ := free_step hi hs hsplit
  refine ⟨hinv, hcons.trans ?_⟩
  have hfreed : (cacheClear s.cache now 3600).2 = [] ↔
      ¬ ∃ e ∈ s.cache.entries, e.2.olderThan now 3600 = true := by
    have hnil := flatMap_freeCb_eq_nil fun e (he : e ∈ s.cache.entries.filter
      fun e ↦ e.2.olderThan now 3600) ↦ hi.counts e (List.mem_of_mem_filter he)
    unfold cacheClear
    rw [hnil, List.filter_eq_nil_iff]
    simp only [not_exists, not_and]
  rw [hfreed]

/-! ## A new address -/

omit [DecidableEq α] in
/-- With the firewall on, a rule is installed where the shell is open. -/
theorem setFirewallRule_true {s : BlockList α τ} (hmode : s.mode ≠ .none) (addr : α) :
    s.setFirewallRule addr true = { s with
      commands := s.commands ++ (if s.shell then [.addRule s.mode addr] else []) } := by
  obtain ⟨cache, mode, shell, commands⟩ := s
  unfold BlockList.setFirewallRule BlockList.runCmd
  cases mode with
  | none => exact absurd rfl hmode
  | iptables => cases shell <;> simp
  | firewalld => cases shell <;> simp

omit [DecidableEq α] in
/-- What an insertion does: entries are freed, and the address joins those that are left. -/
theorem cacheInsert_cases (hi : s.Inv) (addr : α) (now : τ) :
    ∃ rest freed, Splits s ⟨blockListSize, rest⟩ freed ∧
      (freed = [] ↔ ¬ blockListSize ≤ s.keys.length + 1) ∧
      cacheInsert s.cache addr (some 1) now true =
        (⟨blockListSize, rest ++ [(addr, ⟨some 1, now⟩)]⟩, freed) := by
  have hlen : s.keys.length = s.cache.entries.length := List.length_map _
  unfold cacheInsert
  rw [if_pos rfl, hi.size, hlen]
  by_cases hfull : blockListSize ≤ s.cache.entries.length + 1
  · cases hc : s.cache.entries with
    | nil =>
      rw [hc, blockListSize, List.length_nil] at hfull
      omega
    | cons e rest =>
      rw [hc] at hfull
      have hcounts : ∀ d ∈ e :: rest, ∃ n, d.2.data = some n := by
        rw [← hc]
        exact hi.counts
      obtain ⟨n, hn⟩ := hcounts e List.mem_cons_self
      refine ⟨rest, freeCb e, ⟨?_, ?_, rfl⟩, ?_, ?_⟩
      · have hfree : freeCb e = [(e.1, n)] := by
          unfold freeCb
          rw [hn]
          rfl
        rw [hfree]
        unfold BlockList.keys
        rw [hc]
        exact List.Perm.refl _
      · exact fun d hd ↦ hcounts d (List.mem_cons_of_mem e hd)
      · have hone := @flatMap_freeCb_eq_nil α τ [e] fun d hd ↦ by
          rw [List.mem_singleton.mp hd]
          exact ⟨n, hn⟩
        rw [List.flatMap_singleton] at hone
        rw [hone]
        exact ⟨fun h ↦ absurd h (List.cons_ne_nil _ _), fun h ↦ absurd hfull h⟩
      · rw [Lru.insert_of_le addr _ hfull]
        simp only [Option.toList_some, List.flatMap_singleton]
  · rw [Lru.insert_of_lt addr _ (by omega)]
    refine ⟨s.cache.entries, [], ⟨List.Perm.refl _, hi.counts, rfl⟩, ?_, rfl⟩
    exact ⟨fun _ ↦ hfull, fun _ ↦ rfl⟩

/-- The list with an entry for a new address, where there is memory for it. -/
def BlockList.enter (u : BlockList α τ) (addr : α) (now : τ) (memory : Bool) : BlockList α τ :=
  { u with cache := ⟨blockListSize,
      u.cache.entries ++ if memory then [(addr, ⟨some 1, now⟩)] else []⟩ }

omit [DecidableEq α] in
/-- The addresses with a new one. -/
theorem keys_enter (u : BlockList α τ) (addr : α) (now : τ) (memory : Bool) :
    (u.enter addr now memory).keys = u.keys ++ if memory then [addr] else [] := by
  unfold BlockList.enter BlockList.keys
  cases memory <;> simp

omit [DecidableEq α] in
/-- A new address leaves the list well formed. -/
theorem inv_enter {u : BlockList α τ} (hi : u.Inv) {addr : α} (haddr : addr ∉ u.keys) (now : τ)
    (memory : Bool) : (u.enter addr now memory).Inv where
  nodup := by
    rw [keys_enter]
    cases memory with
    | false => simpa using hi.nodup
    | true =>
      rw [if_pos rfl, List.nodup_append]
      refine ⟨hi.nodup, List.nodup_singleton _, ?_⟩
      intro a ha b hb hab
      rw [List.mem_singleton] at hb
      rw [hab, hb] at ha
      exact haddr ha
  counts e he := by
    rcases List.mem_append.mp he with hold | hnew
    · exact hi.counts e hold
    · cases memory with
      | false => cases hnew
      | true =>
        rw [List.mem_singleton.mp hnew]
        exact ⟨1, rfl⟩
  size := rfl
  closed := hi.closed

/-- With the firewall on, an address comes on the list with its rule where there is memory for the
one and a shell for the other. -/
theorem enter_step {u : BlockList α τ} (hi : u.Inv) (hs : u.Consistent) (hon : u.mode ≠ .none)
    {addr : α} (haddr : addr ∉ u.keys) (now : τ) (memory : Bool) :
    ((u.enter addr now memory).setFirewallRule addr true).Inv ∧
      (((u.enter addr now memory).setFirewallRule addr true).Consistent ↔ memory = u.shell) := by
  have henter := inv_enter hi haddr now memory
  have hon' : (u.enter addr now memory).mode ≠ .none := hon
  rw [setFirewallRule_true hon']
  constructor
  · constructor
    · exact henter.nodup
    · exact henter.counts
    · exact henter.size
    · intro hshell
      have hclosed : u.shell = false := hshell
      have hnone : (u.enter addr now memory).shell = false := hshell
      simp only [hnone, Bool.false_eq_true, if_false, List.append_nil]
      exact hi.closed hclosed
  · -- the list and the rules grow by the address, each on its own condition
    have hrules : BlockList.installed { u.enter addr now memory with
        commands := (u.enter addr now memory).commands ++
          (if (u.enter addr now memory).shell then [.addRule (u.enter addr now memory).mode addr]
            else []) } = u.installed ++ if u.shell then [addr] else [] := by
      unfold BlockList.enter BlockList.installed
      cases u.shell <;> simp [Command.apply]
    unfold BlockList.Consistent at hs ⊢
    rw [if_neg hon] at hs
    rw [if_neg hon', hrules]
    show (u.installed ++ _).Perm (u.enter addr now memory).keys ↔ _
    rw [keys_enter]
    have hlength := hs.length_eq
    constructor
    · intro hperm
      have hboth := hperm.length_eq
      cases memory <;> cases hshell : u.shell <;>
        simp only [hshell, List.length_append, if_true, Bool.false_eq_true, if_false,
          List.length_nil, List.length_singleton] at hboth ⊢ <;> omega
    · intro hsame
      rw [hsame]
      exact hs.append_right _

/-- An address that is not on the list joins what the cache leaves when it has made room. -/
theorem update_of_new (hi : s.Inv) {addr : α} (haddr : addr ∉ s.keys) {errLevel : Int}
    (herr : 0 < errLevel) (now : τ) (memory : Bool) :
    ∃ rest freed, Splits s ⟨blockListSize, rest⟩ freed ∧
      (freed = [] ↔ ¬ (memory = true ∧ blockListSize ≤ s.keys.length + 1)) ∧
      (updateBlockList s addr errLevel now memory).1 =
        let u := (BlockList.freeRules { s with cache := ⟨blockListSize, rest⟩ } freed).enter
          addr now memory
        if s.mode = .none then u else u.setFirewallRule addr true := by
  obtain ⟨rest, freed, hsplit, hfreed, hinsert⟩ :
      ∃ rest freed, Splits s ⟨blockListSize, rest⟩ freed ∧
        (freed = [] ↔ ¬ (memory = true ∧ blockListSize ≤ s.keys.length + 1)) ∧
        cacheInsert s.cache addr (some 1) now memory =
          (⟨blockListSize, rest ++ if memory then [(addr, ⟨some 1, now⟩)] else []⟩, freed) := by
    cases memory with
    | false =>
      refine ⟨s.cache.entries, [], ⟨List.Perm.refl _, hi.counts, rfl⟩, by simp, ?_⟩
      unfold cacheInsert
      simp only [Bool.false_eq_true, if_false, List.append_nil, ← hi.size]
    | true =>
      obtain ⟨rest, freed, hsplit, hfreed, hinsert⟩ := cacheInsert_cases hi addr now
      refine ⟨rest, freed, hsplit, ?_, hinsert⟩
      simpa using hfreed
  refine ⟨rest, freed, hsplit, hfreed, ?_⟩
  have hmiss := Lru.lookup_eq_none haddr
  unfold updateBlockList cacheKeyExist
  simp only [hmiss, Cache.touch_of_miss hmiss, Option.isSome_none, Bool.false_eq_true, if_false,
    if_pos herr, hinsert, freeRules_eq]
  unfold BlockList.enter
  by_cases hoff : s.mode = .none
  · rw [if_pos hoff, if_neg (not_not_intro hoff)]
    rfl
  · rw [if_neg hoff, if_pos hoff]
    rfl

/-- An address that is not on the list, with an error. -/
theorem update_new_step (hi : s.Inv) (hs : s.Consistent) {addr : α} (haddr : addr ∉ s.keys)
    {errLevel : Int} (herr : 0 < errLevel) (now : τ) (memory : Bool) :
    (updateBlockList s addr errLevel now memory).1.Inv ∧
      ((updateBlockList s addr errLevel now memory).1.Consistent ↔
        if s.mode = .none then
          s.shell = true → ¬ (memory = true ∧ blockListSize ≤ s.keys.length + 1)
        else memory = s.shell) := by
  obtain ⟨rest, freed, hsplit, hfreed, hupdate⟩ := update_of_new hi haddr herr now memory
  obtain ⟨hinv, hcons⟩ := free_step hi hs hsplit
  have hleft : addr ∉ rest.map Prod.fst := by
    intro hmem
    exact haddr (hsplit.perm.mem_iff.mpr (List.mem_append_right _ hmem))
  rw [hupdate]
  rw [hfreed] at hcons
  generalize hu : BlockList.freeRules { s with cache := ⟨blockListSize, rest⟩ } freed = u
    at hinv hcons ⊢
  rw [freeRules_eq] at hu
  have hkeys : addr ∉ u.keys := by
    rw [← hu]
    exact hleft
  have hmode : u.mode = s.mode := by rw [← hu]
  have hshell : u.shell = s.shell := by rw [← hu]
  by_cases hoff : s.mode = .none
  · simp only [if_pos hoff]
    refine ⟨inv_enter hinv hkeys now memory, ?_⟩
    -- the firewall is off, so the new entry is no matter
    have hsame : (u.enter addr now memory).Consistent ↔ u.Consistent := by
      have hoff' : u.mode = .none := hmode.trans hoff
      have henter : (u.enter addr now memory).mode = .none := hoff'
      unfold BlockList.Consistent
      rw [if_pos hoff', if_pos henter]
      exact Iff.rfl
    rw [hsame, hcons]
    exact ⟨fun h ↦ h hoff, fun h _ ↦ h⟩
  · simp only [if_neg hoff]
    have hon : u.mode ≠ .none := fun h ↦ hoff (hmode.symm.trans h)
    rw [← hshell]
    exact enter_step hinv (hcons.mpr fun h ↦ absurd h hoff) hon hkeys now memory

/-- `update_block_list`. -/
theorem update_step (hi : s.Inv) (hs : s.Consistent) (addr : α) (errLevel : Int) (now : τ)
    (memory : Bool) :
    (updateBlockList s addr errLevel now memory).1.Inv ∧
      ((updateBlockList s addr errLevel now memory).1.Consistent ↔
        (addr ∉ s.keys → 0 < errLevel →
          if s.mode = .none then
            s.shell = true → ¬ (memory = true ∧ blockListSize ≤ s.keys.length + 1)
          else memory = s.shell)) := by
  by_cases hnew : addr ∉ s.keys ∧ 0 < errLevel
  · have hstep := update_new_step hi hs hnew.1 hnew.2 now memory
    exact ⟨hstep.1, hstep.2.trans ⟨fun h _ _ ↦ h, fun h ↦ h hnew.1 hnew.2⟩⟩
  · -- the address is on the list, or there is no error: no addresses change
    have hvacuous : ∀ P : Prop, addr ∉ s.keys → 0 < errLevel → P :=
      fun P h g ↦ absurd ⟨h, g⟩ hnew
    have hkept : (updateBlockList s addr errLevel now memory).1.Inv ∧
        (updateBlockList s addr errLevel now memory).1.Consistent := by
      have hone := sameKeys_touch s.cache addr now
      have htwo := hone.trans (sameKeys_touch _ addr now)
      unfold updateBlockList
      simp only
      split
      · split
        · exact same_step hi hs htwo
        · split
          · exact same_step hi hs htwo
          · exact same_step hi hs (htwo.trans (sameKeys_setCount { s with cache := _ } addr _))
      · next hfound =>
        have hout : addr ∉ s.keys := by
          apply Lru.not_mem_of_lookup
          simpa [cacheKeyExist] using hfound
        rw [if_neg fun herr ↦ hnew ⟨hout, herr⟩]
        exact same_step hi hs hone
    exact ⟨hkept.1, fun _ ↦ hvacuous _, fun _ ↦ hkept.2⟩

/-! ## Runs -/

section Runs

variable [LinearOrder τ] [Sub τ] [OfNat τ 3600]

/-- A call keeps the list and the firewall consistent exactly when it fits. -/
theorem blockStep_spec (hi : s.Inv) (hs : s.Consistent) (e : BlockEvent α τ) :
    ∃ t, blockStep s e = some t ∧ t.Inv ∧ (t.Consistent ↔ s.Fits e) := by
  unfold BlockList.Fits
  cases e with
  | check addr now =>
    obtain ⟨hinv, hcons⟩ := check_step hi hs addr now
    refine ⟨_, rfl, hinv, ⟨fun _ ↦ ?_, fun _ ↦ hcons⟩⟩
    split
    · exact fun _ ↦ not_false
    · intro _ _ _ _ h
      cases h
  | update addr errLevel now memory =>
    obtain ⟨hinv, hcons⟩ := update_step hi hs addr errLevel now memory
    refine ⟨_, rfl, hinv, hcons.trans ?_⟩
    by_cases hoff : s.mode = .none
    · simp only [if_pos hoff, BlockList.Frees]
      constructor
      · intro h hshell hfrees
        exact h hfrees.1 hfrees.2.1 hshell hfrees.2.2
      · intro h haddr herr hshell hfull
        exact h hshell ⟨haddr, herr, hfull⟩
    · simp only [if_neg hoff]
      constructor
      · intro h _ _ _ _ he haddr herr
        cases he
        exact h haddr herr
      · intro h haddr herr
        exact h addr errLevel now memory rfl haddr herr
  | remove addr =>
    obtain ⟨hinv, hcons⟩ := remove_step hi hs addr
    refine ⟨_, rfl, hinv, hcons.trans ?_⟩
    by_cases hoff : s.mode = .none
    · rw [if_pos hoff]
      exact ⟨fun h ↦ h hoff, fun h _ ↦ h⟩
    · rw [if_neg hoff]
      exact ⟨fun _ _ _ _ _ h ↦ (nomatch h), fun _ h ↦ absurd h hoff⟩
  | clear now =>
    obtain ⟨hinv, hcons⟩ := clear_step hi hs now
    refine ⟨_, rfl, hinv, hcons.trans ?_⟩
    by_cases hoff : s.mode = .none
    · rw [if_pos hoff]
      exact ⟨fun h ↦ h hoff, fun h _ ↦ h⟩
    · rw [if_neg hoff]
      exact ⟨fun _ _ _ _ _ h ↦ (nomatch h), fun _ h ↦ absurd h hoff⟩

omit [DecidableEq α] [LinearOrder τ] [Sub τ] [OfNat τ 3600] in
/-- A new list is well formed. -/
theorem inv_initBlockList (firewall : Bool) (p : Probe) :
    (initBlockList firewall p : BlockList α τ).Inv where
  nodup := List.nodup_nil
  counts _ he := nomatch he
  size := rfl
  closed _ := rfl

omit [LinearOrder τ] [Sub τ] [OfNat τ 3600] in
/-- A new list has no addresses and no rules. -/
theorem consistent_initBlockList (firewall : Bool) (p : Probe) :
    (initBlockList firewall p : BlockList α τ).Consistent := by
  unfold BlockList.Consistent
  split
  · rfl
  · exact List.Perm.refl _

/-- Whatever the firewall is, over all calls the rules are those of the listed addresses, one each,
and nothing is sent to the shell with the firewall off, exactly when every call fits. -/
theorem block_list_consistent_iff (firewall : Bool) (p : Probe) (es : List (BlockEvent α τ)) :
    (∀ pre, pre <+: es →
      ∃ s, run blockStep (initBlockList firewall p) pre = some s ∧ s.Consistent) ↔
      Along blockStep BlockList.Fits (initBlockList firewall p) es := by
  apply forall_prefix_iff_along blockStep BlockList.Fits BlockList.Inv BlockList.Consistent
  · intro s e hi hs
    exact blockStep_spec hi hs e
  · exact inv_initBlockList firewall p
  · exact consistent_initBlockList firewall p

end Runs

/-- With neither firewall found, an address that comes off the list sends the shell a command that
was never written. -/
theorem block_list_sends_garbage :
    ∃ s, run blockStep (initBlockList true ⟨some false, some false, true⟩ : BlockList Nat Int)
        [.update 1 1 0 true, .remove 1] = some s ∧
      s.mode = .none ∧ s.commands = [.uninitialised] ∧ ¬ s.Consistent := by
  refine ⟨_, rfl, rfl, rfl, ?_⟩
  intro h
  exact absurd h (List.cons_ne_nil _ _)

end Operations

end OpenWrtCompile.Server
