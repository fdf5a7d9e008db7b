import Gurl.Chunked.Download
import Gurl.Remote.Upload
import Gurl.Remote.Agree
import Gurl.Remote.Fetch
import Gurl.Socks.Framing
import Gurl.Ws.Encode
import Gurl.Ws.Grammar
import Gurl.Mqtt.Framing
import Gurl.Cookies.RoundTrip
import Gurl.CwPause.Transparent
import Gurl.Smtp.Reading
import Gurl.Pingpong.Responses
import Gurl.Netrc.Conformance
import Gurl.Doh.TakeResult
import Gurl.Urlglob.Expansion
import Gurl.Tftp.Upload
import Gurl.Conn.Attach
import Gurl.Vtls.Behaviour
import Gurl.Vtls.Separation
import Gurl.MultiEv.Supervision
import Gurl.Threads.Wakeups
import Gurl.Threads.Ledger
import Gurl.Buffer.Pass
import Gurl.Spack.RoundTrip
import Gurl.Urlapi.Dedotdotify
import Gurl.Vquic.Stall
import Gurl.Telnet.Transparency
import Gurl.Ratelimit.Drain
import Gurl.Uint.Table
import Gurl.Hash.Runs
import Gurl.Ratelimit.Tuning
import Gurl.Dates
import Gurl.Proxy.Reinit
import Gurl.Base64
import Gurl.Sendf.Lineconv
import Gurl.Pop3.Decoding
import Gurl.Doh.ReqEncode
import Gurl.CwOut.Empties
import Gurl.Ws.Answers
import Gurl.Ftplist.Symlink
import Gurl.Dynbuf.Memory
import Gurl.Netrc.Load
import Gurl.Proxy.Spared
import Gurl.Http1.Splits
import Gurl.Hsts
import Gurl.Multi.Timers
