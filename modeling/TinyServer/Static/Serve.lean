import TinyServer.Static.Files

/-!
# Static responses (`static.c`)

`static_serve` and `static_begin_file` arm a response on the connection; both always
return `HTTP_IO_WANT_WRITE`, so here they return only the new state. `static_on_write`
sends an armed file.
-/

set_option autoImplicit false

namespace TinyServer.Static

open TinyServer.Http TinyServer.Net

/-! ## Texts -/

/-- The answer to a file that may not be read, after which the connection is closed. -/
def RESPONSE_403_CLOSE : List UInt8 :=
  cstr "HTTP/1.1 403 Forbidden\r\nContent-Length: 0\r\nConnection: close\r\n\r\n"

/-- The same answer where the connection is kept. -/
def RESPONSE_403_KEEP : List UInt8 :=
  cstr "HTTP/1.1 403 Forbidden\r\nContent-Length: 0\r\nConnection: keep-alive\r\n\r\n"

/-- The answer to a path that is not there, after which the connection is closed. -/
def RESPONSE_404_CLOSE : List UInt8 :=
  cstr "HTTP/1.1 404 Not Found\r\nContent-Length: 0\r\nConnection: close\r\n\r\n"

/-- The same answer where the connection is kept. -/
def RESPONSE_404_KEEP : List UInt8 :=
  cstr "HTTP/1.1 404 Not Found\r\nContent-Length: 0\r\nConnection: keep-alive\r\n\r\n"

/-- The answer to a method other than GET and HEAD, after which the connection is closed. -/
def RESPONSE_405_CLOSE : List UInt8 :=
  cstr ("HTTP/1.1 405 Method Not Allowed\r\nContent-Length: 0\r\nAllow: GET, HEAD\r\n" ++
    "Connection: close\r\n\r\n")

/-- The same answer where the connection is kept. -/
def RESPONSE_405_KEEP : List UInt8 :=
  cstr ("HTTP/1.1 405 Method Not Allowed\r\nContent-Length: 0\r\nAllow: GET, HEAD\r\n" ++
    "Connection: keep-alive\r\n\r\n")

/-- The answer to a request that failed. -/
def RESPONSE_500 : List UInt8 :=
  cstr "HTTP/1.1 500 Internal Server Error\r\nContent-Length: 0\r\nConnection: close\r\n\r\n"

/-- The answer to a path that cannot be decoded. -/
def RESPONSE_400 : List UInt8 :=
  cstr "HTTP/1.1 400 Bad Request\r\nContent-Length: 0\r\nConnection: close\r\n\r\n"

/-- `%s` for `hc->keep ? "keep-alive" : "close"`. -/
def connectionText (keep : Bool) : List UInt8 :=
  if keep then cstr "keep-alive" else cstr "close"

/-- `%lld`. -/
def formatLld (n : Int) : List UInt8 :=
  (if n < 0 then cstr "-" else []) ++
    (if n = 0 then cstr "0"
      else (Nat.digits 10 n.natAbs).reverse.map fun d => UInt8.ofNat (0x30 + d))

/-- `%.*s`. -/
def formatSlice (s : List UInt8) : List UInt8 := s.takeWhile (· != 0)

/-- The head of a 200. -/
def okHeader (size : Int) (mime : List UInt8) (keep : Bool) : List UInt8 :=
  cstr "HTTP/1.1 200 OK\r\nContent-Length: " ++ formatLld size ++
    (cstr "\r\nContent-Type: " ++ mime ++
      (cstr "\r\nConnection: " ++ connectionText keep ++ cstr "\r\n\r\n"))

/-- The text of a 301 to `path` and a slash. -/
def redirectHeader (path query : List UInt8) (keep : Bool) : List UInt8 :=
  cstr "HTTP/1.1 301 Moved Permanently\r\nLocation: " ++ formatSlice path ++ cstr "/" ++
    (if query = [] then [] else cstr "?" ++ formatSlice query) ++
      (cstr "\r\nContent-Length: 0\r\nConnection: " ++ connectionText keep ++ cstr "\r\n\r\n")

/-- The path of the request with what follows it in memory, and its length. -/
def requestPath (hc : HttpConn) : List UInt8 × UInt16 :=
  if hc.req.path.len = 0 then ([SLASH], 1)
  else (hc.buf.drop hc.req.path.off, UInt16.ofNat hc.req.path.len)

namespace Handler

/-! ## Arming an answer -/

/-- Close the descriptor of the connection or release it to the cache. -/
def releaseFile (h : Handler) : Handler :=
  match h.hc.fileFd with
  | none => h
  | some fd => if h.hc.fileOwned then h.close fd else h.staticCacheRelease fd

/-- The end of `arm_fixed` and `arm_dir_redirect`. -/
def dropFile (h : Handler) : Handler :=
  match h.hc.fileFd with
  | none => h
  | some _ =>
      let h := h.releaseFile
      { h with hc := { h.hc with fileFd := none, fileOwned := true } }

/-- `arm_fixed` of `static.c`. -/
def armFixed (h : Handler) (closeResp : List UInt8) (keepResp : Option (List UInt8))
    (allowKeep : Bool) (status now : Nat) : Handler :=
  let hc :=
    -- a kept connection needs both the request's leave and a text for it
    match allowKeep && httpShouldKeepalive h.hc.req, keepResp with
    | true, some resp => { h.hc with fixed := resp, keep := true }
    | _, _ => { h.hc with fixed := closeResp, keep := false }
  let h := { h with hc := { hc with
    fixedOff := 0
    phase := .writeFixed
    deadlineMs := now + hc.sendTimeoutMs
    statusCode := status } }
  h.dropFile

/-- `ARM_CLOSE`. -/
def armClose (h : Handler) (resp : List UInt8) (status now : Nat) : Handler :=
  h.armFixed resp none false status now

/-- `ARM_KEEPABLE`. -/
def armKeepable (h : Handler) (closeResp keepResp : List UInt8) (status now : Nat) : Handler :=
  h.armFixed closeResp (some keepResp) true status now

/-- `arm_open_error`. -/
def armOpenError (h : Handler) (r : OpenResult) (now : Nat) : Handler :=
  match r with
  | .notFound => h.armKeepable RESPONSE_404_CLOSE RESPONSE_404_KEEP 404 now
  | .forbidden => h.armKeepable RESPONSE_403_CLOSE RESPONSE_403_KEEP 403 now
  | _ => h.armClose RESPONSE_500 500 now

/-- `cork` of `static.c`, which ignores the result of the call. -/
def cork (h : Handler) (on : Bool) : Handler :=
  let kernel := match h.hc.fd with
    | none => h.kernel
    | some fd => (h.kernel.cork fd on).2
  { h with kernel := kernel, hc := { h.hc with corkOn := on } }

/-- `arm_dir_redirect` for the client-facing path `path`. -/
def armDirRedirect (h : Handler) (path : List UInt8) (now : Nat) : Handler :=
  let query := (h.hc.buf.drop h.hc.req.query.off).take h.hc.req.query.len
  -- 160 bytes for the fixed parts, one for the slash, one for the `?`
  let need := 160 + path.length + 1 + (if query = [] then 0 else 1 + query.length)
  match h.bumpAlloc need with
  | none => h.armClose RESPONSE_500 500 now
  | some h =>
      let keep := httpShouldKeepalive h.hc.req
      let h := { h with hc := { h.hc with keep := keep } }
      let hdr := redirectHeader path query keep
      -- `snprintf` was cut short
      if need ≤ hdr.length then h.armClose RESPONSE_500 500 now
      else
        let h := { h with hc := { h.hc with
          fixed := hdr
          fixedOff := 0
          phase := .writeFixed
          deadlineMs := now + h.hc.sendTimeoutMs
          statusCode := 301 } }
        h.dropFile

/-- `arm_regular`. -/
def armRegular (h : Handler) (fd : Nat) (size : Int64) (mime : List UInt8) (owned : Bool)
    (now : Nat) : Handler :=
  match h.bumpAlloc STATIC_HDR_SIZE with
  -- the file is given up with the response
  | none => (if owned then h.close fd else h).armClose RESPONSE_500 500 now
  | some h =>
      let keep := httpShouldKeepalive h.hc.req
      let h := { h with hc := { h.hc with keep := keep, statusCode := 200 } }
      let hdr := okHeader size.toInt mime keep
      if STATIC_HDR_SIZE ≤ hdr.length then
        (if owned then h.close fd else h).armClose RESPONSE_500 500 now
      else
        let h := { h with hc := { h.hc with
          outHdr := hdr
          outHdrOff := 0
          -- a cached descriptor is not the connection's to close
          fileFd := some fd
          fileOwned := owned
          fileSize := size.toInt.toNat
          fileOff := 0
          sendBody := decide (h.hc.req.method = HttpMethod.get ∧ 0 < size)
          phase := .writeHdr
          deadlineMs := now + h.hc.sendTimeoutMs } }
        h.cork true

/-! ## Serving a path -/

/-- A request for `rel` that the table answers; `false` where it does not. -/
def serveCached (h : Handler) (rel : List UInt8) (now : Nat) : Bool × Handler :=
  let f := fileCacheFind h.cache rel
  let h := { h with cache := f.1 }
  match f.2 with
  | none => (false, h)
  | some (i, e) =>
      let r := h.fileCacheRecheck i e now
      match r.1 with
      | none => (false, r.2)
      -- the hold comes after the recheck, on the entry as it is then
      | some e =>
          let h := { r.2 with cache := fileCacheHold r.2.cache i }
          (true, h.armRegular e.fd e.size e.mime false now)

/-- `fstat` of what was opened; an error where an answer has been armed instead. -/
def statOpened (o : OpenResult × Handler) (now : Nat) : Except Handler (Nat × Stat × Handler) :=
  match o.1 with
  | .opened fd =>
      let s := o.2.fstat
      match s.1 with
      | none => .error ((s.2.close fd).armClose RESPONSE_500 500 now)
      | some st => .ok (fd, st, s.2)
  | r => .error (o.2.armOpenError r now)

/-- The end of `static_serve`, for an open descriptor that is not a directory. -/
def serveOpened (h : Handler) (useCache : Bool) (rel : List UInt8) (fd : Nat) (st : Stat)
    (now : Nat) : Handler :=
  -- not a file, or a size that makes no sense
  if st.kind ≠ .regular ∨ st.size < 0 then
    (h.close fd).armKeepable RESPONSE_403_CLOSE RESPONSE_403_KEEP 403 now
  else
    let mime := mimeFromPath rel
    if useCache then
      let s := fileCacheStore h.cache rel fd st mime now
      match s.2 with
      | some i => { h with cache := fileCacheHold s.1 i }.armRegular fd st.size mime false now
      -- no place in the table: the connection owns the descriptor
      | none => { h with cache := s.1 }.armRegular fd st.size mime true now
    else h.armRegular fd st.size mime true now

/-- The part of `static_serve` for a path that turned out to be a directory, whose
descriptor is closed. -/
def serveIndex (h : Handler) (useCache : Bool) (decoded rel redir : List UInt8) (now : Nat) :
    Handler :=
  -- `/dir`: redirect to `/dir/`
  if decoded.getLast? ≠ some SLASH then h.armDirRedirect redir now
  -- 11 bytes for `/index.html` and the NUL
  else if STATIC_PATH_MAX ≤ rel.length + 11 then
    h.armKeepable RESPONSE_404_CLOSE RESPONSE_404_KEEP 404 now
  else
    let rel := rel ++ cstr "/index.html"
    let c := if useCache then h.serveCached rel now else (false, h)
    if c.1 then c.2
    else
      match statOpened (c.2.openUnder rel) now with
      | .error h => h
      | .ok (fd, st, h) => h.serveOpened useCache rel fd st now

/-- `static_serve` once the path is known. -/
def servePath (h : Handler) (useCache : Bool) (decoded rel redir : List UInt8) (now : Nat) :
    Handler :=
  let c := if useCache then h.serveCached rel now else (false, h)
  if c.1 then c.2
  else
    match statOpened (c.2.openUnder rel) now with
    | .error h => h
    | .ok (fd, st, h) =>
        if st.kind = .directory then (h.close fd).serveIndex useCache decoded rel redir now
        else h.serveOpened useCache rel fd st now

/-- `static_serve`. `url` is the path to decode with what follows it in memory. -/
def staticServe (allowDotfiles : Bool) (h : Handler) (dirFd : Option Nat) (useCache : Bool)
    (url : List UInt8) (urlLen : UInt16) (redir : List UInt8) (now : Nat) : Handler :=
  if h.hc.req.method ≠ .get ∧ h.hc.req.method ≠ .head then
    h.armKeepable RESPONSE_405_CLOSE RESPONSE_405_KEEP 405 now
  -- the mount was never opened
  else if dirFd = none then h.armClose RESPONSE_500 500 now
  else
    match h.bumpAlloc STATIC_PATH_MAX with
    -- two buffers of 4096 bytes: the decoded path and the relative one
    | none => h.armClose RESPONSE_500 500 now
    | some h =>
        match h.bumpAlloc STATIC_PATH_MAX with
        | none => h.armClose RESPONSE_500 500 now
        | some h =>
            match percentDecode url urlLen STATIC_PATH_MAX with
            | none => h.armClose RESPONSE_400 400 now
            | some decoded =>
                match normalizePath allowDotfiles decoded STATIC_PATH_MAX with
                | none => h.armKeepable RESPONSE_404_CLOSE RESPONSE_404_KEEP 404 now
                | some rel => h.servePath useCache decoded rel redir now

/-- `static_begin`. -/
def staticBegin (allowDotfiles : Bool) (docroot : Option Nat) (h : Handler) (now : Nat) :
    Handler :=
  let loc := requestPath h.hc
  h.staticServe allowDotfiles docroot true loc.1 loc.2 (loc.1.take loc.2.toNat) now

/-- `static_begin_file`. -/
def staticBeginFile (h : Handler) (path : List UInt8) (now : Nat) : Handler :=
  if h.hc.req.method ≠ .get ∧ h.hc.req.method ≠ .head then
    h.armKeepable RESPONSE_405_CLOSE RESPONSE_405_KEEP 405 now
  -- a file route without a target
  else if path = [] then h.armClose RESPONSE_500 500 now
  else
    match statOpened (h.openFile path) now with
    | .error h => h
    | .ok (fd, st, h) =>
        if st.kind ≠ .regular ∨ st.size < 0 then
          (h.close fd).armKeepable RESPONSE_403_CLOSE RESPONSE_403_KEEP 403 now
        else h.armRegular fd st.size (mimeFromPath path) true now

/-! ## Sending -/

/-- The loop of `sendfile`: the bytes moved, and how it ends. -/
def sendfileLoop (size : Nat) : List ReadResult → Nat → List UInt8 × SendOutcome × List ReadResult
  | [], off => if size ≤ off then ([], .done, []) else ([], .wouldBlock, [])
  | r :: rs, off =>
      if size ≤ off then ([], .done, r :: rs)
      else
        match r with
        | .interrupted => sendfileLoop size rs off
        | .wouldBlock => ([], .wouldBlock, rs)
        | .error => ([], .dead, rs)
        | .data bytes =>
            -- one call moves at most 1 MiB
            let sent := bytes.take (min (size - off) (2 ^ 20))
            -- the file is shorter than it was: the response cannot be completed
            if sent = [] then ([], .dead, rs)
            else
              let r := sendfileLoop size rs (off + sent.length)
              (sent ++ r.1, r.2)

/-- The end of both phases: the whole response went out. -/
def finishFile (h : Handler) : HttpIo × Handler :=
  let h := (h.cork false).releaseFile
  (.done, { h with hc := { h.hc with fileFd := none, fileOwned := true } })

/-- The loop of `sendfile` in `static_on_write`, and what it returns. -/
def sendFile (h : Handler) : HttpIo × Handler :=
  let r := sendfileLoop h.hc.fileSize h.disk.sendfiles h.hc.fileOff
  let h := { h with
    disk := { h.disk with sendfiles := r.2.2 }
    kernel := h.kernel.recordSend .client r.1
    hc := { h.hc with fileOff := h.hc.fileOff + r.1.length } }
  match r.2.1 with
  | .wouldBlock => (.wantWrite, h)
  | .dead => (.close, h)
  | .done => h.finishFile

/-- `static_on_write`. -/
def staticOnWrite (h : Handler) : HttpIo × Handler :=
  if h.hc.phase = .writeHdr then
    let r := h.kernel.send .client (h.hc.outHdr.drop h.hc.outHdrOff)
    let h := { h with kernel := r.2.2, hc := { h.hc with outHdrOff := h.hc.outHdrOff + r.1 } }
    match r.2.1 with
    | .wouldBlock => (.wantWrite, h)
    | .dead => (.close, h)
    | .done =>
        -- HEAD, or an empty file
        if !h.hc.sendBody then h.finishFile
        else { h with hc := { h.hc with phase := .sendfile } }.sendFile
  else h.sendFile

/-- `http_conn_on_write`. -/
def httpConnOnWrite (h : Handler) (now : Nat) : HttpIo × Handler :=
  if h.hc.deadlineMs ≤ now then (.close, h)
  else
    let h := { h with hc := { h.hc with lastActiveMs := now } }
    match h.hc.phase with
    | .writeFixed =>
        let r := writeFixed h.hc h.kernel
        (r.1, { h with hc := r.2.1, kernel := r.2.2 })
    | .writeHdr | .sendfile => h.staticOnWrite
    | .read => (.wantRead, h)

/-- `http_conn_cleanup`. -/
def httpConnCleanup (h : Handler) : Handler :=
  let h := h.releaseFile
  let h := { h with hc := { h.hc with fileFd := none, fileOwned := true } }
  match h.hc.fd with
  | none => h
  | some fd =>
      if h.hc.corkOn then
        { h with kernel := (h.kernel.cork fd false).2, hc := { h.hc with corkOn := false } }
      else h

end Handler

end TinyServer.Static
