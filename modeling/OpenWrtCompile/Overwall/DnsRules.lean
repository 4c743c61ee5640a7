import OpenWrtCompile.Base.Bytes
import OpenWrtCompile.Base.DotPattern
import OpenWrtCompile.Base.LineEdits
import OpenWrtCompile.Overwall.Ports
import Mathlib.Data.List.Dedup
import Mathlib.Data.List.SplitOn

/-!
# The DNS rules of overwall

`luci-app-overwall/root/etc/init.d/overwall` (1000–1097), the modes other than `oversea`: `gen_dns`
writes `black.conf` and `white.conf` for dnsmasq and `$CON_T`, the rules of smartdns, from the lists of
domains. A loop reads the words of a list file; for each it deletes lines with `sed`, the word taken as
a pattern, and the loops of the services write a rule for it.

The working directory, to which the words of a comment may be expanded, and `sed` on words with other
special characters than the dot are a parameter.
-/

namespace OpenWrtCompile.Overwall
open OpenWrtCompile.Base

/-- A byte of a domain: a letter, a digit, `-`, `_` or `.`. -/
def isDomainByte (c : UInt8) : Bool :=
  (0x61 ≤ c && c ≤ 0x7A) || (0x41 ≤ c && c ≤ 0x5A) || (0x30 ≤ c && c ≤ 0x39) || c = 0x2D || c = 0x5F ||
    c = 0x2E

/-- A domain. -/
structure Domain where
  text : Bytes
  valid : (text ≠ [] && text.all isDomainByte) = true
  deriving DecidableEq

/-- A line of a list. -/
inductive ListLine
  | domain (d : Domain)
  | blank
  | comment (text : Bytes)

/-- The lists. -/
structure Lists where
  black : List ListLine
  gfw : List ListLine
  youtube : List ListLine
  netflix : List ListLine
  custom : List ListLine
  white : List ListLine

/-- The sets of the rules. -/
inductive DnsSet
  | blacklist | youtube | netflix | custom | overWanAc
  deriving DecidableEq, Repr

/-- The name of a set. -/
def DnsSet.name : DnsSet → Bytes
  | .blacklist => ascii "blacklist"
  | .youtube => ascii "youtube"
  | .netflix => ascii "netflix"
  | .custom => ascii "custom"
  | .overWanAc => ascii "over_wan_ac"

/-- A line of the three files. -/
inductive DnsLine
  | empty
  | server (d : Bytes) (port : Bytes)
  | ipset (d : Bytes) (set : DnsSet)
  | domainRules (d : Bytes) (ns : UInt8) (set : DnsSet)
  deriving DecidableEq

/-- The text of a line. -/
def DnsLine.text : DnsLine → Bytes
  | .empty => []
  | .server d port => ascii "server=" ++ 0x2F :: (d ++ 0x2F :: (ascii "127.0.0.1#" ++ port))
  | .ipset d set => ascii "ipset " ++ 0x2F :: (d ++ 0x2F :: set.name)
  | .domainRules d ns set =>
    ascii "domain-rules " ++ 0x2F :: (d ++ 0x2F ::
      (ascii " -nameserver " ++ ns :: (ascii " -ipset " ++ set.name)))

/-- The domain of a line. -/
def DnsLine.domain : DnsLine → Option Bytes
  | .empty => none
  | .server d _ | .ipset d _ | .domainRules d _ _ => some d

/-- What the words of a comment may meet: the expansion of a word with special characters, and whether
`sed` deletes a line for it. -/
structure Tools where
  expand : Bytes → List Bytes
  deletes : Bytes → Bytes → Bool

/-- No character that is special to the shell or, apart from the dot, to `sed`. -/
def isPlain (w : Bytes) : Bool := w.all fun c ↦ c ∉ ascii "*?[]\\^$/"

/-- A word as a pattern of `sed`. -/
def wordPattern (w : Bytes) : List (PatPlace UInt8) :=
  w.map fun c ↦ if c = 0x2E then .any else .one c

namespace Tools

variable (t : Tools)

/-- The words of a line in `$(cat $O)`. -/
def wordsOf : ListLine → List Bytes
  | .domain d => [d.text]
  | .blank => []
  | .comment text =>
    (((0x23 :: text).splitOnP fun c ↦ c = 0x20 || c = 0x09).filter (· ≠ [])).flatMap fun w ↦
      if isPlain w then [w] else t.expand w

/-- The words of a file. -/
def words (lines : List ListLine) : List Bytes := lines.flatMap t.wordsOf

/-- `sed -e "/\/$i\//d" -e "/\.$i\//d"` deletes the line. -/
def drops (i : Bytes) (line : DnsLine) : Bool :=
  if isPlain i then
    finds (.one 0x2F :: (wordPattern i ++ [.one 0x2F])) line.text ||
      finds (.one 0x2E :: (wordPattern i ++ [.one 0x2F])) line.text
  else t.deletes i line.text

end Tools

/-- `sed -e "/\/$i/d" -e "/\.$i/d"` deletes the line, for the host of an upstream. -/
def hostDrops (i : Domain) (line : DnsLine) : Bool :=
  finds (.one 0x2F :: wordPattern i.text) line.text ||
    finds (.one 0x2E :: wordPattern i.text) line.text

/-- The domains of a file: the lines that `awk '!/^$/&&!/^#/'` prints. -/
def domains (lines : List ListLine) : List Bytes :=
  lines.filterMap fun
    | .domain d => some d.text
    | _ => none

/-- Where a service goes: nowhere, to its own node, to the main one, or with another service. -/
inductive Via
  | off | own | main | youtube | netflix
  deriving DecidableEq, Repr

/-- The options that lines 1000–1097 read: the mode, the services, and the hosts of the encrypted
upstreams. -/
structure DnsConfig where
  mode : RunMode
  not_oversea : mode ≠ .oversea
  yb : Via
  nf : Via
  cu : Via
  dohT : List Domain
  dohYbT : List Domain
  dohNfT : List Domain
  dohCuT : List Domain
  dohLT : List Domain

/-- The loop of a service: its file `$O`, `$n`, `$N` and the hosts of its upstreams. -/
structure Group where
  lines : List ListLine
  n : UInt8
  set : DnsSet
  hosts : List Domain

/-- The three files. -/
inductive DnsFile
  | black | rules | white
  deriving DecidableEq, Repr

/-- A command on the files. -/
abbrev DnsCommand : Type := FileCommand DnsFile DnsLine

/-- `server=/…/127.0.0.1#5335`. -/
def server5335 (d : Bytes) : DnsLine := .server d (ascii "5335")

/-- `server=/…/127.0.0.1#5336`. -/
def server5336 (d : Bytes) : DnsLine := .server d (ascii "5336")

/-- The rule of a group. -/
def Group.rule (g : Group) (i : Bytes) : DnsLine := .domainRules i g.n g.set

namespace DnsConfig

variable (t : Tools) (c : DnsConfig) (l : Lists)

/-- `$YB` or `$YB_GL`. -/
def ybOn : Bool := c.yb = .own || c.yb = .main

/-- `$NF` or `$NF_GL`. -/
def nfOn : Bool := c.nf = .own || c.nf = .main

/-- `$CU` or `$CU_GL`. -/
def cuOn : Bool := c.cu = .own || c.cu = .main

/-- Lines 1022–1041. -/
def ybGroup : Group where
  lines := l.youtube ++ (if c.nf = .youtube then .blank :: l.netflix else []) ++
    (if c.cu = .youtube then .blank :: l.custom else [])
  n := if c.yb = .main then 0x61 else 0x63
  set := if c.yb = .main then .blacklist else .youtube
  hosts := c.dohYbT

/-- Lines 1043–1060. -/
def nfGroup : Group where
  lines := l.netflix ++ (if c.cu = .netflix then .blank :: l.custom else [])
  n := if c.nf = .main then 0x61 else 0x65
  set := if c.nf = .main then .blacklist else .netflix
  hosts := c.dohNfT

/-- Lines 1062–1077. -/
def cuGroup : Group where
  lines := l.custom
  n := if c.cu = .main then 0x61 else 0x67
  set := if c.cu = .main then .blacklist else .custom
  hosts := c.dohCuT

/-- The groups that are active, in the order of their loops. -/
def groups : List Group :=
  (if c.ybOn then [c.ybGroup l] else []) ++ (if c.nfOn then [c.nfGroup l] else []) ++
    (if c.cuOn then [c.cuGroup l] else [])

/-- `black.conf` behind lines 1003–1011. -/
def blackLines : List DnsLine :=
  if c.mode = .all then []
  else
    (domains l.black).map server5335 ++
      if c.mode = .gfw then
        (c.dohT.map fun h ↦ server5335 h.text) ++ (domains l.gfw).map server5335
      else []

/-- The hosts of lines 1014–1016. -/
def droppedHosts : List Domain := c.dohYbT ++ c.dohNfT ++ c.dohCuT

/-- `echo "$(sort -u …)"`: no lines become an empty one. -/
def sortLines (lines : List DnsLine) : List DnsLine :=
  match (lines.mergeSort fun a b ↦ decide (a.text ≤ b.text)).dedup with
  | [] => [.empty]
  | x :: xs => x :: xs

/-- `black.conf` behind lines 1013–1020. -/
def blackConf : List DnsLine :=
  match c.blackLines l with
  | [] => []
  | lines => sortLines (lines.filter fun line ↦ c.droppedHosts.all fun h ↦ !hostDrops h line)

/-- `s/.*=/ipset /g` and `s/127.0.0.1#5335/blacklist/g`. -/
def toIpset : DnsLine → DnsLine
  | .server d _ => .ipset d .blacklist
  | line => line

/-- The files behind line 1020. -/
def startFiles : DnsFile → List DnsLine
  | .black => c.blackConf l
  | .rules => (c.blackConf l).map toIpset
  | .white => []

/-- The body of the loop of a service. -/
def groupStep (g : Group) (i : Bytes) : List DnsCommand :=
  [⟨.black, .delete (t.drops i)⟩, ⟨.rules, .delete (t.drops i)⟩, ⟨.rules, .append [g.rule i]⟩]

/-- The commands of a service. -/
def groupCommands (g : Group) : List DnsCommand :=
  (t.words g.lines).flatMap (groupStep t g) ++
    if c.mode = .gfw then
      [⟨.black, .append ((domains g.lines).map server5335)⟩,
        ⟨.black, .append (g.hosts.map fun h ↦ server5335 h.text)⟩]
    else []

/-- The body of the loop over the white list. -/
def whiteStep (i : Bytes) : List DnsCommand :=
  [⟨.black, .delete (t.drops i)⟩, ⟨.rules, .delete (t.drops i)⟩]

/-- Lines 1079–1088; `>` in the loop leaves the last host. -/
def whiteCommands : List DnsCommand :=
  (if c.mode = .all then
    c.dohLT.flatMap fun h ↦
      [⟨.white, .delete fun _ ↦ true⟩, ⟨.white, .append [server5336 h.text]⟩]
  else []) ++
  if l.white = [] then []
  else
    (t.words l.white).flatMap (whiteStep t) ++
      [⟨.white, .append ((domains l.white).map server5336)⟩,
        ⟨.rules, .append ((domains l.white).map fun d ↦ .ipset d .overWanAc)⟩]

/-- Lines 1022–1088. -/
def commands : List DnsCommand := (c.groups l).flatMap (c.groupCommands t) ++ c.whiteCommands t l

/-- `gen_dns`. -/
def genDns : DnsFile → List DnsLine := runCommands (c.commands t l) (c.startFiles l)

end DnsConfig

end OpenWrtCompile.Overwall
