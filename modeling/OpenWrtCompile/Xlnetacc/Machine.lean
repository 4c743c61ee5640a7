import OpenWrtCompile.Base.Bytes
import OpenWrtCompile.Base.Run

/-!
# The acceleration session

`xlnetacc.sh` of `luci-app-xlnetacc` from the first call of `xlnetacc_main` on, as a machine that makes
one call in a step: a call of `xlnetacc_main`, an attempt of `xlnetacc_retry` or what `xlnetacc_logout`
does behind its calls. The reply to the call is the input; so is a signal, which is taken between calls.
Sleeping, logging and the text of requests are left out.
-/

namespace OpenWrtCompile.Xlnetacc
open OpenWrtCompile.Base

/-- The direction that the calls number 1 and 2. -/
inductive Dir where
  | down
  | up
  deriving DecidableEq, Repr

/-- What a run has done, as far as the session is concerned. -/
inductive Event where
  /-- A keepalive request for a direction, whose variable has this value. -/
  | keepalive (d : Dir) (acc : Nat)
  /-- A recover request. -/
  | recover (d : Dir)
  /-- The variable of a direction is set to 2. -/
  | accelerated (d : Dir)
  /-- `_sessionid` is given up or set, while the variables have these values. -/
  | session (down up : Nat)
  deriving DecidableEq, Repr

/-- The variables, and what has been done, newest first. -/
structure Vars where
  downAcc : Nat
  upAcc : Nat
  sessionid : Bytes
  userid : Bytes
  loginkey : Bytes
  dialAccount : Bytes
  trace : List Event
  deriving DecidableEq, Repr

namespace Vars

/-- `down_acc` or `up_acc`. -/
def acc (v : Vars) : Dir → Nat
  | .down => v.downAcc
  | .up => v.upAcc

/-- `[ $1 = 1 ] && down_acc=n || up_acc=n`. -/
def setAcc (v : Vars) (n : Nat) : Dir → Vars
  | .down => { v with downAcc := n }
  | .up => { v with upAcc := n }

/-- An event more. -/
def log (v : Vars) (e : Event) : Vars := { v with trace := e :: v.trace }

end Vars

/-- `${lasterr:=-1}` behind `json_get_var`. -/
def lasterrOf : Option Bytes → Bytes
  | none => ascii "-1"
  | some code => if code = [] then ascii "-1" else code

/-- What the server says to a login: how curl ends, and the fields. A successful one has a session. -/
structure LoginReply where
  curl : Nat
  errorCode : Option Bytes
  userID : Bytes
  loginKey : Bytes
  sessionID : Bytes
  carries : errorCode = some (ascii "0") → sessionID ≠ []

/-- An entry of `vipList`. -/
structure Vip where
  vasid : Bytes
  isVip : Bytes
  isYear : Bytes

/-- What the server says to any other call. The numbers are those that the shell's arithmetic reads,
`none` where it reads none. -/
structure Reply where
  code : Option Bytes
  vipList : List Vip
  canUpgrade : Bytes
  bindDialAccount : Bytes
  dialAccount : Bytes
  curBandwidth : Option Int
  maxBandwidth : Option Int
  bandwidth : Option Int

/-- What `[ … = 0 ]` says of an unquoted word: of `0` the truth, of a word with blanks anything. -/
structure ZeroTest where
  test : Bytes → Bool
  zero : test (ascii "0") = true

/-- `lasterr` behind the login request: `case $?` of curl. -/
def LoginReply.lasterr (r : LoginReply) : Bytes :=
  if r.curl = 0 then lasterrOf r.errorCode
  else if r.curl = 2 then ascii "-2"
  else if r.curl = 28 then ascii "-3"
  else ascii "-1"

section Calls
variable (v : Vars)

/-- `swjsq_login`: the variables and `lasterr`. -/
def swjsqLogin (r : LoginReply) : Vars × Bytes :=
  let lasterr := r.lasterr
  if lasterr = ascii "0" then
    ({ v with userid := r.userID, loginkey := r.loginKey, sessionid := r.sessionID }.log
      (.session v.downAcc v.upAcc), lasterr)
  else if lasterr = ascii "15" then ({ v with userid := [], loginkey := [] }, lasterr)
  else (v, lasterr)

/-- `swjsq_logout`. -/
def swjsqLogout (r : Reply) : Vars × Bytes :=
  let lasterr := lasterrOf r.code
  if lasterr = ascii "0" then
    ({ v with sessionid := [] }.log (.session v.downAcc v.upAcc), lasterr)
  else (v, lasterr)

/-- One entry of `vipList`: whether the member may go down, and the variables. -/
def vipEntry (s : Bool × Vars) (vip : Vip) : Bool × Vars :=
  if (vip.vasid = ascii "2" ∧ s.2.downAcc ≠ 0) ∨ vip.vasid = ascii "14" ∨
      vip.vasid = ascii "33" then
    if vip.isVip = ascii "1" ∨ vip.isYear = ascii "1" then
      (s.1 || decide (vip.vasid ≠ ascii "33"), s.2)
    else if vip.vasid = ascii "33" then (s.1, s.2.setAcc 0 .up)
    else s
  else s

/-- `swjsq_getuserinfo`. -/
def swjsqGetuserinfo (r : Reply) : Vars × Bytes :=
  let lasterr := lasterrOf r.code
  if lasterr = ascii "0" then
    let (canDown, v) := r.vipList.foldl vipEntry (false, v)
    (if canDown then v else v.setAcc 0 .down, lasterr)
  else (v, lasterr)

/-- `isp_bandwidth`; `none` where the arithmetic ends the script. -/
def ispBandwidth (isZero : ZeroTest) (d : Dir) (r : Reply) : Option (Vars × Bytes) :=
  let lasterr := lasterrOf r.code
  if lasterr = ascii "0" then do
    let cur ← r.curBandwidth
    let max ← r.maxBandwidth
    if r.bindDialAccount ≠ [] ∧ r.bindDialAccount ≠ r.dialAccount then
      some ((v.setAcc 0 .down).setAcc 0 .up, lasterr)
    else if isZero.test r.canUpgrade then some (v.setAcc 0 d, lasterr)
    else if max.tdiv 1024 ≤ cur.tdiv 1024 then some (v.setAcc 0 d, lasterr)
    else if v.dialAccount = [] ∧ r.dialAccount ≠ [] then
      some ({ v with dialAccount := r.dialAccount }, lasterr)
    else some (v, lasterr)
  else if lasterr = ascii "724" then some (v, ascii "-2")
  else if lasterr = ascii "3103" then some (v.setAcc 0 d, ascii "0")
  else some (v, lasterr)

/-- `isp_upgrade`; `none` where the arithmetic ends the script. -/
def ispUpgrade (d : Dir) (r : Reply) : Option (Vars × Bytes) :=
  let lasterr := lasterrOf r.code
  if lasterr = ascii "0" then
    r.bandwidth.map fun _ ↦ ((v.setAcc 2 d).log (.accelerated d), lasterr)
  else if lasterr = ascii "812" then some ((v.setAcc 2 d).log (.accelerated d), ascii "0")
  else if lasterr = ascii "724" then some (v, ascii "-2")
  else some (v, lasterr)

/-- `isp_keepalive`. -/
def ispKeepalive (d : Dir) (r : Reply) : Vars × Bytes :=
  let lasterr := lasterrOf r.code
  (v.log (.keepalive d (v.acc d)), if lasterr = ascii "513" then ascii "-2" else lasterr)

/-- `isp_recover`. -/
def ispRecover (d : Dir) (r : Reply) : Vars × Bytes :=
  let lasterr := lasterrOf r.code
  if lasterr = ascii "0" then ((v.log (.recover d)).setAcc 1 d, lasterr)
  else (v.log (.recover d), lasterr)

end Calls

/-- Where `xlnetacc_logout` was called: at the top of the loop with 3 attempts, behind the loop, and in
`sigterm`. -/
inductive Caller where
  | top
  | stop
  | sigterm
  deriving DecidableEq, Repr

/-- The call that comes next. `loggedOut` stands behind the calls of `xlnetacc_logout`, `keepaliveSleep` is
the sleep of the inner loop. -/
inductive Point where
  | getBindIp
  | recover (caller : Caller) (d : Dir)
  | swjsqLogout (caller : Caller)
  | loggedOut (caller : Caller)
  | login
  | getuserinfo
  | renewal
  | portal (d : Dir)
  | bandwidth (d : Dir)
  | upgrade (d : Dir)
  | keepaliveSleep
  | keepalive (d : Dir)
  | exited (code : Nat)
  deriving DecidableEq, Repr

/-- The variables, the next call, and `retry`. -/
structure State where
  vars : Vars
  point : Point
  retry : Nat
  deriving DecidableEq, Repr

/-- The next call, for the first time. -/
def goto (point : Point) (v : Vars) : State := ⟨v, point, 1⟩

/-- What comes behind `xlnetacc_logout`. -/
def afterLogout : Caller → Vars → State
  | .top => goto .login
  | .stop => goto (.exited 6)
  | .sigterm => goto (.exited 0)

/-- `xlnetacc_retry 'isp_recover' 2 2 $retry` and on. -/
def recoverUp (caller : Caller) (v : Vars) : State :=
  if v.upAcc = 2 then goto (.recover caller .up) v else goto (.swjsqLogout caller) v

/-- `xlnetacc_logout`. -/
def xlnetaccLogout (caller : Caller) (v : Vars) : State :=
  if v.sessionid = [] then afterLogout caller v
  else if v.downAcc = 2 then goto (.recover caller .down) v
  else recoverUp caller v

/-- The end of `xlnetacc_logout`. -/
def logoutEnd (caller : Caller) (v : Vars) : State :=
  let lost := if v.sessionid = [] then v else v.log (.session v.downAcc v.upAcc)
  afterLogout caller { lost with
    downAcc := if v.downAcc ≠ 0 then 1 else v.downAcc
    upAcc := if v.upAcc ≠ 0 then 1 else v.upAcc
    sessionid := []
    dialAccount := [] }

/-- The keepalive of the second direction and on. -/
def keepaliveUp (v : Vars) : State :=
  if v.upAcc = 2 then goto (.keepalive .up) v else goto .keepaliveSleep v

/-- The keepalives. -/
def keepaliveDown (v : Vars) : State :=
  if v.downAcc = 2 then goto (.keepalive .down) v else keepaliveUp v

/-- The upgrade of the second direction and on. -/
def upgradeUp (v : Vars) : State :=
  if v.upAcc = 1 then goto (.upgrade .up) v else goto .keepaliveSleep v

/-- The upgrades, if a direction is left. -/
def upgradeDown (v : Vars) : State :=
  if v.downAcc = 0 ∧ v.upAcc = 0 then xlnetaccLogout .stop v
  else if v.downAcc = 1 then goto (.upgrade .down) v
  else upgradeUp v

/-- The bandwidth of the second direction and on. -/
def bandwidthUp (v : Vars) : State :=
  if v.upAcc = 1 then goto (.bandwidth .up) v else upgradeDown v

/-- The bandwidths. -/
def bandwidthDown (v : Vars) : State :=
  if v.downAcc = 1 then goto (.bandwidth .down) v else bandwidthUp v

/-- The portal of the second direction and on. -/
def portalUp (v : Vars) : State :=
  if v.upAcc = 1 then goto (.portal .up) v else bandwidthDown v

/-- The portals. -/
def portalDown (v : Vars) : State :=
  if v.downAcc = 1 then goto (.portal .down) v else portalUp v

/-- Behind `swjsq_getuserinfo`. -/
def afterGetuserinfo (v : Vars) : State :=
  if v.downAcc = 0 ∧ v.upAcc = 0 then xlnetaccLogout .stop v else goto .renewal v

/-- Behind `swjsq_login`: `case $lasterr`. -/
def afterLogin (v : Vars) (lasterr : Bytes) : State :=
  if lasterr = ascii "0" then goto .getuserinfo v
  else if lasterr = ascii "-2" then goto (.exited 7) v
  else if lasterr ∈ [ascii "-1", ascii "-3", ascii "6", ascii "8", ascii "15"] then goto .login v
  else goto (.exited 5) v

section Steps
variable (isZero : ZeroTest)

/-- `xlnetacc_retry` behind an attempt, with `$4` if there is one: the attempt after it, or what comes
next. -/
def retried (s : State) (limit : Option Nat) (lasterr : Bytes) (v : Vars)
    (next : Bool → Vars → State) : State :=
  if isZero.test lasterr then next true v
  else if limit.any (· ≤ s.retry) ∨ lasterr = ascii "-2" then next false v
  else ⟨v, s.point, s.retry + 1⟩

/-- The attempts of the calls in `xlnetacc_logout`. -/
def Caller.retry : Caller → Nat
  | .top => 3
  | _ => 1

/-- What comes in between two points: whether an address was found, the replies, and whether the time for
a new login has come. -/
structure Answer where
  bindIp : Bool
  loginReply : LoginReply
  reply : Reply
  reloginDue : Bool

/-- An answer, or a signal. -/
inductive Input where
  | answer (a : Answer)
  | signal

/-- A result, or the end of the script by the error of the arithmetic. -/
def orAbort (v : Vars) (result : Option (Vars × Bytes)) (next : Vars → Bytes → State) : State :=
  match result with
  | none => goto (.exited 2) v
  | some (v', lasterr) => next v' lasterr

/-- The call at a point. -/
def call (s : State) (a : Answer) : State :=
  let v := s.vars
  match s.point with
  | .getBindIp => if a.bindIp then xlnetaccLogout .top v else { s with retry := s.retry + 1 }
  | .recover caller d =>
    let r := ispRecover v d a.reply
    retried isZero s (some caller.retry) r.2 r.1 fun _ v ↦
      match d with
      | .down => recoverUp caller v
      | .up => goto (.swjsqLogout caller) v
  | .swjsqLogout caller =>
    let r := swjsqLogout v a.reply
    retried isZero s (some caller.retry) r.2 r.1 fun _ v ↦ goto (.loggedOut caller) v
  | .loggedOut caller => logoutEnd caller v
  | .login =>
    let r := swjsqLogin v a.loginReply
    afterLogin r.1 r.2
  | .getuserinfo =>
    let r := swjsqGetuserinfo v a.reply
    retried isZero s none r.2 r.1 fun _ v ↦ afterGetuserinfo v
  | .renewal => retried isZero s none (lasterrOf a.reply.code) v fun _ v ↦ portalDown v
  | .portal d =>
    retried isZero s none (lasterrOf a.reply.code) v fun _ v ↦
      match d with
      | .down => portalUp v
      | .up => bandwidthDown v
  | .bandwidth d =>
    orAbort v (ispBandwidth v isZero d a.reply) fun v' lasterr ↦
      retried isZero s (some 10) lasterr v' fun ok v ↦
        if ok then
          match d with
          | .down => bandwidthUp v
          | .up => upgradeDown v
        else goto .getBindIp v
  | .upgrade d =>
    orAbort v (ispUpgrade v d a.reply) fun v' lasterr ↦
      retried isZero s (some 10) lasterr v' fun ok v ↦
        if ok then
          match d with
          | .down => upgradeUp v
          | .up => goto .keepaliveSleep v
        else goto .getBindIp v
  | .keepaliveSleep => if a.reloginDue then goto .getBindIp v else keepaliveDown v
  | .keepalive d =>
    let r := ispKeepalive v d a.reply
    retried isZero s (some 5) r.2 r.1 fun ok v ↦
      if ok then
        match d with
        | .down => keepaliveUp v
        | .up => goto .keepaliveSleep v
      else goto .getBindIp v
  | .exited _ => s

/-- A step of the script; behind its end nothing happens. -/
def step (s : State) : Input → State
  | .answer a => call isZero s a
  | .signal =>
    match s.point with
    | .exited _ => s
    | _ => xlnetaccLogout .sigterm s.vars

/-- The step of a run. -/
def next (s : State) (e : Input) : Option State := some (step isZero s e)

/-- The script in front of `xlnetacc_main`, with the directions that are switched on. -/
def started (down up : Bool) : State :=
  goto .getBindIp
    { downAcc := down.toNat, upAcc := up.toNat, sessionid := [], userid := [], loginkey := [],
      dialAccount := [], trace := [] }

end Steps

end OpenWrtCompile.Xlnetacc
