import KludgeOS.Fs.File
import KludgeOS.Interleaving

/-!
The file server's open-file table and its requests (`fs/serv.c`, `inc/fd.h`).
Between two requests clients map and unmap the `Fd` pages they have been sent.
-/

namespace KludgeOS

def MAXOPEN : Nat := 1024
def MAXPATHLEN : Nat := 1024
def O_WRONLY : Word := 0x0001
def O_RDWR : Word := 0x0002

def devfileId : Word := 0x66

structure Fd where
  devId : Word := 0
  offset : Word := 0
  omode : Word := 0
  id : Word := 0
  file : Nat → Word := fun _ => 0

/-- The page at `o_fd` with the number of mappings clients have of it. -/
structure FdPage where
  fd : Fd
  clients : Nat

structure OpenFile where
  fileid : Word
  file : Option Ptr
  mode : Word
  fdPage : Option FdPage

/-- The file system and `opentab`; `strays` are the entries that an unset `o` points at. -/
structure Srv where
  fs : Fs
  opentab : Nat → OpenFile
  strays : List (Option Nat)

inductive Req where
  /-- The last argument tells whether the client takes the page it is sent. -/
  | open : (path : List Byte) → (omode : Word) → (takes : Bool) → Req
  | map : (fileid offset : Word) → Req
  | setSize : (fileid size : Word) → Req
  | close : (fileid : Word) → Req
  | dirty : (fileid offset : Word) → Req
  | remove : (path : List Byte) → Req
  | sync : Req
  deriving DecidableEq

inductive Sent where
  | nothing : Sent
  | fd : (slot : Nat) → Sent
  | block : (b : Nat) → (perm : Word) → Sent
  deriving DecidableEq

structure Reply where
  r : Int
  page : Sent := .nothing
  deriving DecidableEq

def OpenFile.init (i : Nat) : OpenFile :=
  {fileid := BitVec.ofNat 32 i, file := none, mode := if i = 0 then 1 else 0, fdPage := none}

/-- `pageref(o->o_fd)`: the server's own mapping and those of the clients. -/
def OpenFile.pageref (o : OpenFile) : Nat :=
  match o.fdPage with
  | none => 0
  | some pg => pg.clients+1

def cPath (path : List Byte) : List Byte := (path.take (MAXPATHLEN-1)).takeWhile (· != 0)

namespace Srv

def setOpen (s : Srv) (i : Nat) (o : OpenFile) : Srv :=
  {s with opentab := Function.update s.opentab i o}

/-- Entries `i`, `i+1`, … of the table, `n` of them, with `*o`. -/
def allocRounds (s : Srv) : (n i : Nat) → Int × Option Nat × Srv
  | 0,_ => (-E_MAX_OPEN,none,s)
  | n+1,i =>
    let o := s.opentab i
    let claim (s : Srv) (clients : Nat) : Int × Option Nat × Srv :=
      let id := o.fileid+BitVec.ofNat 32 MAXOPEN
      (id.toInt,some i,s.setOpen i {o with fileid := id, fdPage := some ⟨{},clients⟩})
    match o.fdPage with
    | none =>
      match s.fs.luck with
      | (.ok,fs) => claim {s with fs := fs} 0
      | (.fail _,fs) => (1,none,{s with fs := fs})
    | some pg => if pg.clients = 0 then claim s 0 else s.allocRounds n (i+1)

def openfileAlloc (s : Srv) : Int × Option Nat × Srv := s.allocRounds MAXOPEN 0

def openfileLookup (s : Srv) (fileid : Word) : Int × Option Nat :=
  let i := fileid.toNat%MAXOPEN
  let o := s.opentab i
  if o.pageref = 1 ∨ o.fileid ≠ fileid then (-E_INVAL,none) else (0,some i)

def copyFile (fs : Fs) (f : Ptr) : Nat → Word := fun i => (fs.get (f.off i)).getD 0

/-- Entry `i` is filled in for `f` and its page sent. -/
def finishOpen (s : Srv) (i : Nat) (f : Ptr) (omode : Word) (takes : Bool) :
    Option (Reply × Srv) := do
  let o := s.opentab i
  let pg ← o.fdPage
  let fd : Fd :=
    {pg.fd with file := copyFile s.fs f, id := o.fileid, omode := omode, devId := devfileId}
  let pg : FdPage := ⟨fd,if takes then pg.clients+1 else pg.clients⟩
  return (⟨0,.fd i⟩,s.setOpen i {o with file := some f, mode := omode, fdPage := some pg})

def serveOpen (s : Srv) (path : List Byte) (omode : Word) (takes : Bool) :
    Option (Reply × Srv) := do
  let (r,slot,s) := s.openfileAlloc
  if r < 0 then return (⟨r,.nothing⟩,s)
  else
    match ← s.fs.fileOpen (cPath path) with
    | (r,none,fs) => return (⟨r,.nothing⟩,{s with fs := fs})
    | (_,some f,fs) =>
      match slot with
      | some i => finishOpen {s with fs := fs} i f omode takes
      | none =>
        let i ← s.strays.headD none
        finishOpen {s with fs := fs.note .stray, strays := s.strays.tail} i f omode takes

/-- The open file of a request; a null `o_file` faults when it is followed. -/
def withOpen (s : Srv) (fileid : Word) (k : Nat → Ptr → Option (Reply × Srv)) :
    Option (Reply × Srv) :=
  match s.openfileLookup fileid with
  | (r,none) => some (⟨r,.nothing⟩,s)
  | (_,some i) => do
    let f ← (s.opentab i).file
    k i f

def serveSetSize (s : Srv) (fileid size : Word) : Option (Reply × Srv) :=
  s.withOpen fileid fun i f => do
    let fs ← s.fs.fileSetSize f size
    let o := s.opentab i
    -- The store to the copy faults when the page at `o_fd` is not there.
    let pg ← o.fdPage
    let fd : Fd := {pg.fd with file := Function.update pg.fd.file 32 size}
    return (⟨0,.nothing⟩,{s with fs := fs}.setOpen i {o with fdPage := some {pg with fd := fd}})

def serveMap (s : Srv) (fileid offset : Word) : Option (Reply × Srv) :=
  s.withOpen fileid fun i f => do
    let (r,b,fs) ← s.fs.fileGetBlock f (offset.sdiv 4096)
    if r < 0 then return (⟨r,.nothing⟩,{s with fs := fs})
    else
      let perm := if (s.opentab i).mode&&&(O_WRONLY|||O_RDWR) ≠ 0
        then PTE_U|||PTE_P|||PTE_W else PTE_U|||PTE_P
      return (⟨0,.block b (perm|||0x400)⟩,{s with fs := fs})

def serveClose (s : Srv) (fileid : Word) : Option (Reply × Srv) :=
  s.withOpen fileid fun _ f => do
    let fs ← s.fs.fileClose f
    return (⟨0,.nothing⟩,{s with fs := fs})

def serveRemove (s : Srv) (path : List Byte) : Option (Reply × Srv) := do
  let (r,fs) ← s.fs.fileRemove (cPath path)
  return (⟨r,.nothing⟩,{s with fs := fs})

def serveDirty (s : Srv) (fileid offset : Word) : Option (Reply × Srv) :=
  s.withOpen fileid fun _ f => do
    let (r,fs) ← s.fs.fileDirty f offset
    return (⟨r,.nothing⟩,{s with fs := fs})

def serveSync (s : Srv) : Option (Reply × Srv) := do
  let fs ← s.fs.fsSync
  return (⟨0,.nothing⟩,{s with fs := fs})

def serve (s : Srv) : Req → Option (Reply × Srv)
  | .open path omode takes => s.serveOpen path omode takes
  | .map fileid offset => s.serveMap fileid offset
  | .setSize fileid size => s.serveSetSize fileid size
  | .close fileid => s.serveClose fileid
  | .dirty fileid offset => s.serveDirty fileid offset
  | .remove path => s.serveRemove path
  | .sync => s.serveSync

/-- A client that has the page of entry `i` maps it once more. -/
def mapFd (s : Srv) (i : Nat) : Option Srv := do
  let pg ← (s.opentab i).fdPage
  if pg.clients = 0 then none
  else return s.setOpen i {s.opentab i with fdPage := some {pg with clients := pg.clients+1}}

def unmapFd (s : Srv) (i : Nat) : Option Srv := do
  let pg ← (s.opentab i).fdPage
  if pg.clients = 0 then none
  else return s.setOpen i {s.opentab i with fdPage := some {pg with clients := pg.clients-1}}

end Srv

/-- What happens next: a request is served, or a client maps or unmaps an `Fd` page. -/
inductive SrvAct where
  | req : Req → SrvAct
  | mapFd : (slot : Nat) → SrvAct
  | unmapFd : (slot : Nat) → SrvAct
  deriving DecidableEq

def Srv.next (a : SrvAct) (s : Srv) : Option Srv :=
  match a with
  | .req q => (s.serve q).map Prod.snd
  | .mapFd i => s.mapFd i
  | .unmapFd i => s.unmapFd i

/-- `umain` before its loop, on this disk. -/
def Srv.boot (disk : Nat → Nat → Word) (chance : List Chance) (junk : List (Option Ptr))
    (strays : List (Option Nat)) : Option Srv := do
  let fs ← { disk := disk, cache := fun _ => none, chance := chance, junk := junk,
             notes := [] : Fs }.fsInit
  return {fs := fs, opentab := OpenFile.init, strays := strays}

/-- The server has started on a disk that satisfies `image`. -/
def Srv.Boot (image : (Nat → Nat → Word) → Prop) (s : Srv) : Prop :=
  ∃ disk chance junk strays, image disk ∧ Srv.boot disk chance junk strays = some s

end KludgeOS
