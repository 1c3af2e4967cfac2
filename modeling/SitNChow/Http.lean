/-
The shared REST client (firebase_client.c): `firebase_get`,
`firebase_patch`, `firebase_put`, `firebase_push` and `firebase_delete`,
called by any number of tasks, over one persistent handle and one
response context.

# The handle

`esp_http_client` is taken as its documentation has it: URL, method and
post field stay on the handle until they are set again, the post field is
a pointer that is not copied, and data events reach the context during
`perform`. `Shared.wire` is what a request performed now would carry; it
is nothing when the post field points to a freed body.

# Grain

Each access to the handle, the context or the mutex is a step, and so is
each allocation and each `free`. Between them any other task may run.
-/
import SitNChow.CJson
import SitNChow.Kit.Heap
import SitNChow.Kit.Machine

namespace SitNChow.Http

open Kit

universe u

-- ============================================================== requests

/-- `esp_http_client_method_t`, as far as it is used. -/
inductive Method where
  | get
  | patch
  | put
  | post
  | delete
deriving DecidableEq

/-- The functions of the REST interface. -/
inductive Fn where
  | get
  | patch
  | put
  | push
  | delete
deriving DecidableEq

/-- The method string each of them passes to `do_request`. -/
def Fn.methodName : Fn → CString
  | .get => cstr "GET"
  | .patch => cstr "PATCH"
  | .put => cstr "PUT"
  | .push => cstr "POST"
  | .delete => cstr "DELETE"

/-- The ones that print a JSON value and pass it as the body. -/
def Fn.writes : Fn → Bool
  | .patch | .put | .push => true
  | .get | .delete => false

/-- The method `do_request` finds for a string. -/
def methodOf (method : CString) : Method :=
  if method = cstr "GET" then .get
  else if method = cstr "PATCH" then .patch
  else if method = cstr "PUT" then .put
  else if method = cstr "POST" then .post
  else .delete

/-- One call: the function, the URL that `build_url` made for its path,
and the printed JSON value (of no meaning for `get` and `delete`). -/
structure Call where
  fn : Fn
  url : CString
  json : CString
deriving DecidableEq

/-- What goes out. -/
structure Request where
  url : CString
  method : Method
  body : Option CString
deriving DecidableEq

/-- The method a function stands for. -/
def Fn.httpMethod : Fn → Method
  | .get => .get
  | .patch => .patch
  | .put => .put
  | .push => .post
  | .delete => .delete

/-- The request a call is to make: its own URL, its function's method,
and its JSON text, which a write has and a read and a delete do not. -/
def Call.request (c : Call) : Request where
  url := c.url
  method := c.fn.httpMethod
  body := if c.fn.writes = true ∧ c.json ≠ [] then some c.json else none

/-- The `strcmp` chain finds the function's method. -/
theorem methodOf_name (fn : Fn) : methodOf fn.methodName = fn.httpMethod := by
  cases fn <;> decide

-- ============================================================== the tasks

/-- Where a call is. Up to `take` and from `free` on it is in the
`firebase_*` function, from `calloc` to `finish` in `do_request`;
`finish` has the result of the request, `give` and `free` that of
`do_request`. -/
inductive Stage where
  | alloc
  | take
  | calloc
  | context
  | setUrl
  | setMethod
  | setPostField
  | perform
  | finish (ok : Bool)
  | give (ok : Bool)
  | free (ok : Bool)
deriving DecidableEq

/-- A call under way: its arguments, its body and response buffer, its
place, and the data received for its request so far (ghost). -/
structure Frame where
  call : Call
  body : Option Ptr
  resp : Option Ptr
  stage : Stage
  received : CString

/-- The persistent handle's settings. -/
structure Handle where
  url : CString
  method : Method
  postField : Option Ptr

/-- `resp_ctx_t`. -/
structure RespCtx where
  buf : Option Ptr
  len : Nat
  cap : Nat

/-- What the tasks share: the mutex, the handle, the response context and
the heap. -/
structure Shared (τ : Type u) where
  mutex : Option τ
  handle : Handle
  ctx : RespCtx
  heap : Heap CString

/-- The client and the calls under way. -/
structure State (τ : Type u) where
  shared : Shared τ
  task : τ → Option Frame

/-- `BODY_BUF_SIZE`. -/
def bodyBufSize : Nat := 8192

/-- After `firebase_client_init`: the configured URL, and no call. -/
def State.init (τ : Type u) (url : CString) : State τ where
  shared := { mutex := none
              handle := { url := url, method := .get, postField := none }
              ctx := { buf := none, len := 0, cap := 0 }
              heap := .empty }
  task := fun _ => none

variable {τ : Type u}

/-- The request that is sent, and goes on being sent, while a task is in
`perform`; `none` when the post field is stale. -/
def Shared.wire (sh : Shared τ) : Option Request :=
  match sh.handle.postField with
  | none => some { url := sh.handle.url, method := sh.handle.method
                   body := none }
  | some p => (sh.heap.get p).map fun text =>
      { url := sh.handle.url, method := sh.handle.method, body := some text }

/-- `http_event_handler` on a data event. -/
def Shared.onData (chunk : CString) (sh : Shared τ) : Shared τ :=
  match sh.ctx.buf with
  | none => sh
  | some buf =>
      let remaining := sh.ctx.cap - sh.ctx.len - 1
      let toCopy := min chunk.length remaining
      if 0 < toCopy then
        match sh.heap.get buf with
        | some text =>
            { sh with
              heap := sh.heap.write buf
                (text.take sh.ctx.len ++ chunk.take toCopy)
              ctx := { sh.ctx with len := sh.ctx.len + toCopy } }
        | none => sh
      else sh

/-- Free a pointer that may be NULL. -/
def Shared.free (p : Option Ptr) (sh : Shared τ) : Shared τ :=
  match p with
  | some p => { sh with heap := sh.heap.free p }
  | none => sh

/-- A call's next step in its own frame and in what is shared; no frame
when it returns. `ok` is the outcome of an allocation, or of the request
(no transport error and a 2xx status). -/
def Frame.step (t : τ) (ok : Bool) (f : Frame) (sh : Shared τ) :
    Option (Option Frame × Shared τ) :=
  match f.stage with
  | .alloc =>
      if ok then
        if f.call.fn.writes then
          some (some { f with body := some sh.heap.next, stage := .take },
            { sh with heap := sh.heap.alloc f.call.json })
        else some (some { f with stage := .take }, sh)
      else some (none, sh)
  | .take =>
      match sh.mutex with
      | none =>
          some (some { f with stage := .calloc }, { sh with mutex := some t })
      | some _ => none
  | .calloc =>
      if ok then
        some (some { f with resp := some sh.heap.next, stage := .context },
          { sh with heap := sh.heap.alloc [] })
      else some (some { f with stage := .give false }, sh)
  | .context =>
      some (some { f with stage := .setUrl },
        { sh with ctx := { buf := f.resp, len := 0, cap := bodyBufSize } })
  | .setUrl =>
      some (some { f with stage := .setMethod },
        { sh with handle := { sh.handle with url := f.call.url } })
  | .setMethod =>
      some (some { f with stage := .setPostField },
        { sh with handle :=
          { sh.handle with method := methodOf f.call.fn.methodName } })
  | .setPostField =>
      -- body && strlen(body) > 0
      let postField := f.body.filter fun p => (sh.heap.get p).any (· ≠ [])
      some (some { f with stage := .perform },
        { sh with handle := { sh.handle with postField := postField } })
  | .perform => some (some { f with stage := .finish ok }, sh)
  | .finish err =>
      -- out_body is passed by firebase_get alone
      if f.call.fn = .get then some (some { f with stage := .give err }, sh)
      else some (some { f with resp := none, stage := .give err },
        sh.free f.resp)
  | .give err =>
      some (some { f with stage := .free err }, { sh with mutex := none })
  | .free _ => some (none, (sh.free f.body).free f.resp)

variable [DecidableEq τ]

/-- Replace one task's frame. -/
def State.set (t : τ) (f : Option Frame) (sh : Shared τ) (s : State τ) :
    State τ where
  shared := sh
  task := fun u => if u = t then f else s.task u

/-- The steps: a task begins a call, a call takes its next step, data
arrives for the request being performed. -/
inductive Action (τ : Type u) where
  | call (t : τ) (c : Call)
  | step (t : τ) (ok : Bool)
  | data (t : τ) (chunk : CString)

/-- The transition. -/
def State.apply (a : Action τ) (s : State τ) : Option (State τ) :=
  match a with
  | .call t c =>
      match s.task t with
      | none => some (s.set t (some
          { call := c, body := none, resp := none, stage := .alloc
            received := [] }) s.shared)
      | some _ => none
  | .step t ok =>
      match s.task t with
      | some f => (f.step t ok s.shared).map fun r => s.set t r.1 r.2
      | none => none
  | .data t chunk =>
      match s.task t with
      | some f =>
          if f.stage = .perform then
            some (s.set t (some { f with received := f.received ++ chunk })
              (s.shared.onData chunk))
          else none
      | none => none

/-- The REST client as a machine. -/
def rest (τ : Type u) [DecidableEq τ] (url : CString) :
    Machine (State τ) (Action τ) where
  init := State.init τ url
  apply := State.apply

end SitNChow.Http
