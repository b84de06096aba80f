import KludgeOS.Lib.Print

/-!
`user/httpd.c`: how the received bytes are parsed, what `handle_client` frees, and the descriptors
`send_file` leaves open. A read past the bytes gives no result.
-/

namespace KludgeOS.Http
open Function List Option
open Print (asc)

def GET : List Byte := [asc 'G',asc 'E',asc 'T',asc ' ']

/-- `strncmp` against all of the first string, which has no NUL. -/
def strncmp : List Byte → List Byte → Option Bool
  | [], _ => some true
  | _ :: _, [] => none
  | c :: s, x :: l => if x = c then strncmp s l else some false

def plain (c x : Byte) : Bool := x ≠ 0 ∧ x ≠ c

/-- `while (*request && *request != c) request++`, with the bytes from there on. -/
def scan (c : Byte) : List Byte → Option (List Byte × List Byte)
  | [] => none
  | x :: l => if plain c x then (scan c l).map fun r => (x :: r.1,r.2) else some ([],x :: l)

/-- Returns with `url` and `version`; the error is `E_BAD_REQ`. -/
def httpRequestParse (request : List Byte) : Option (Except Int (List Byte × List Byte)) :=
  (strncmp GET request).bind fun eq =>
    if eq then (scan 32 (request.drop 4)).bind fun r =>
      (scan 10 r.2.tail).map fun q => .ok (r.1,q.1)
    else some (.error (-1000))

def expected (request : List Byte) : Except Int (List Byte × List Byte) :=
  if request.take 4 = GET then
    let l := request.drop 4
    let rest := l.dropWhile (plain 32)
    .ok (l.takeWhile (plain 32),if rest.head? = some 32 then rest.tail.takeWhile (plain 10) else [])
  else .error (-1000)

/-- Both strings are terminated, and there is no version after a NUL. -/
def Complete (l : List Byte) : Prop :=
  (l.dropWhile (plain 32)).tail.dropWhile (plain 10) ≠ [] ∧
    ((l.dropWhile (plain 32)).head? = some 32 ∨
      (l.dropWhile (plain 32)).tail.takeWhile (plain 10) = [])

lemma scan_eq (c : Byte) (l : List Byte) : scan c l = if l.dropWhile (plain c) = [] then none
    else some (l.takeWhile (plain c),l.dropWhile (plain c)) := by
  induction l with
  | nil => rfl
  | cons x l ih =>
    cases h : plain c x with
    | false => simp [scan,h]
    | true =>
      simp only [scan,h,ih,if_true,dropWhile_cons_of_pos,takeWhile_cons_of_pos]
      split <;> rfl

lemma strncmp_eq_true {s l : List Byte} : strncmp s l = some true ↔ s <+: l := by
  fun_induction strncmp s l <;> grind

lemma strncmp_eq_false {s l : List Byte} : strncmp s l = some false ↔ ¬s <+: l ∧ ¬l <+: s := by
  fun_induction strncmp s l <;> grind

lemma httpRequestParse_get (l : List Byte) : httpRequestParse (GET++l) =
    (scan 32 l).bind fun r => (scan 10 r.2.tail).map fun q => .ok (r.1,q.1) := by
  rw [httpRequestParse,strncmp_eq_true.mpr (prefix_append GET l)]
  rfl

/-- The request is complete, or differs from `"GET "` where it was received. -/
theorem httpRequestParse_iff (request : List Byte) : httpRequestParse request = some (expected
    request) ↔ (∃ l, request = GET++l ∧ Complete l) ∨ ¬GET <+: request ∧ ¬request <+: GET := by
  rw [← strncmp_eq_false]
  cases h : strncmp GET request with
  | none =>
    have hget : ∀ l, request ≠ GET++l := by
      rintro l rfl
      rw [strncmp_eq_true.mpr (prefix_append GET l)] at h
      cases h
    simp [httpRequestParse,h,hget]
  | some b =>
    cases b with
    | false =>
      have hne : request.take 4 ≠ GET := fun he =>
        (strncmp_eq_false.mp h).1 (he ▸ take_prefix 4 request)
      simp [httpRequestParse,expected,h,hne]
    | true =>
      obtain ⟨l,rfl⟩ := strncmp_eq_true.mp h
      have he : expected (GET++l) = .ok (l.takeWhile (plain 32),
          if (l.dropWhile (plain 32)).head? = some 32 then
            (l.dropWhile (plain 32)).tail.takeWhile (plain 10) else []) := rfl
      rw [httpRequestParse_get,scan_eq,he]
      simp only [Complete,append_cancel_left_eq,exists_eq_left',some.injEq]
      generalize l.dropWhile (plain 32) = rest
      cases rest with
      | nil => simp
      | cons c t =>
        simp only [if_neg (cons_ne_nil c t),bind_some,tail_cons,scan_eq]
        grind

theorem unterminated_overread : httpRequestParse (GET++[asc '/']) = none := rfl

def BUFFSIZE : Nat := 512

/-- The variables of `handle_client` before they are set: the two pointers of `con_d`, and the
bytes from `buffer` on. -/
structure Locals where
  url : Word
  version : Word
  buffer : List Byte
  size : BUFFSIZE ≤ buffer.length

/-- What `http_request_parse` is given after `recv`. -/
def Locals.request (x : Locals) (msg : List Byte) : List Byte :=
  msg.take BUFFSIZE++x.buffer.drop (msg.take BUFFSIZE).length

/-- The pointers `malloc` returned and those passed to `free`. `memset` clears `sizeof(req)` bytes,
which are those of `sock`. -/
def handleClient (x : Locals) (msg : List Byte) (url version : Word) :
    Option (List Word × List Word) :=
  (httpRequestParse (x.request msg)).bind fun
    | .error _ => some ([],[x.url,x.version])
    | .ok _ => if url = 0 ∨ version = 0 then none else some ([url,version],[url,version])

def FreesOwn (x : Locals) (msg : List Byte) : Prop :=
  ∀ url version, url ≠ version → ∀ l, handleClient x msg url version = some l →
    (l.2.filter (· ≠ 0)).Nodup ∧ ∀ p ∈ l.2, p = 0 ∨ p ∈ l.1

lemma Locals.request_length (x : Locals) (msg : List Byte) : BUFFSIZE ≤ (x.request msg).length := by
  have := x.size
  simp only [request,length_append,length_drop,length_take]
  omega

/-- A request that is rejected has the pointers freed that `con_d` happens to hold. -/
theorem freesOwn_iff (x : Locals) (msg : List Byte) :
    FreesOwn x msg ↔ GET <+: x.request msg ∨ x.url = 0 ∧ x.version = 0 := by
  by_cases hget : GET <+: x.request msg
  · obtain ⟨l,hreq⟩ := hget
    refine iff_of_true ?_ (.inl ⟨l,hreq⟩)
    intro url version hne r hr
    rw [handleClient,← hreq,httpRequestParse_get] at hr
    obtain ⟨e,he,hr⟩ := of_bind hr
    obtain ⟨_,_,he⟩ := of_bind he
    obtain ⟨_,_,rfl⟩ := map_eq_some_iff.mp he
    simp only at hr
    split at hr
    · cases hr
    cases hr
    exact ⟨.filter _ (by simpa using hne),fun p hp => .inr hp⟩
  have hlong : ¬x.request msg <+: GET := fun h =>
    absurd ((x.request_length msg).trans h.length_le) (by decide)
  have hc (url version : Word) : handleClient x msg url version = some ([],[x.url,x.version]) := by
    rw [handleClient,httpRequestParse,strncmp_eq_false.mpr ⟨hget,hlong⟩]
    rfl
  rw [or_iff_right hget]
  constructor
  · intro hf
    simpa using (hf 1 2 (by decide) _ (hc 1 2)).2
  intro hz url version _ l hl
  rw [hc] at hl
  cases hl
  simp [hz]

/-- No byte came, and nothing that the stack held is a request. -/
theorem rejected_frees_stack : ¬FreesOwn ⟨1,0,replicate BUFFSIZE 0,by simp⟩ [] := by
  intro h
  exact absurd ((h 1 2 (by decide) ([],[1,0]) (by decide +kernel)).2 1 (by decide)) (by decide)

/-- How the calls of `send_file` end. `data` has one send for every read that is not empty. -/
structure Sends where
  fd : Option Nat
  isdir : Bool
  header : Bool
  size : Bool
  type : Bool
  fin : Bool
  data : List Bool

/-- The open descriptors after `send_file`, unless it has ended the process. -/
def sendFile (o : Sends) (fds : Nat → Bool) : Option (Nat → Bool) :=
  match o.fd with
  | none => some fds
  | some fd =>
    let fds := update fds fd true
    if o.isdir then some fds
    else if o.header = false then none
    else if o.size = false then some fds
    else if o.type = false then some fds
    else if o.fin = false then some fds
    else if o.data.all id = false then some fds
    else some (update fds fd false)

def KeepsFds (o : Sends) : Prop :=
  ∀ fds, (∀ fd ∈ o.fd, fds fd = false) → sendFile o fds = none ∨ sendFile o fds = some fds

theorem keepsFds_iff (o : Sends) : KeepsFds o ↔ o.fd = none ∨ o.isdir = false ∧
    (o.header → o.size ∧ o.type ∧ o.fin ∧ o.data.all id) := by
  cases hfd : o.fd with
  | none => simp [KeepsFds,sendFile,hfd]
  | some fd =>
    have hclose : ∀ fds : Nat → Bool, fds fd = false →
        update (update fds fd true) fd false = fds := by
      intro fds h
      rw [update_idem,← h,update_eq_self]
    have hopen : update (fun _ : Nat => false) fd true ≠ fun _ => false :=
      fun h => absurd (congrFun h fd) (by simp)
    constructor
    · intro h
      have h0 := h (fun _ => false) (fun _ _ => rfl)
      simp only [sendFile,hfd] at h0
      grind
    · grind [sendFile,KeepsFds]

theorem directory_leaks : ¬KeepsFds ⟨some 0,true,true,true,true,true,[]⟩ := by
  intro h
  obtain h0 | h0 := h (fun _ => false) fun _ _ => rfl
  · cases h0
  · exact absurd (congrFun (some.inj h0) 0) (by decide)

end KludgeOS.Http
