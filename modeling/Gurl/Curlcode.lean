import Mathlib

/-! The result codes of libcurl, in the order of `include/curl/curl.h`, and the range of its
sizes. -/

namespace Gurl

/-- What is in a string or a buffer. -/
abbrev Bytes := List UInt8

/-- `CURLcode`: `ok` is `CURLE_OK`, `writeError` is `CURLE_WRITE_ERROR`, and so on. -/
inductive Curlcode where
  | ok | unsupportedProtocol | failedInit | urlMalformat | notBuiltIn | couldntResolveProxy
  | couldntResolveHost | couldntConnect | weirdServerReply | remoteAccessDenied | ftpAcceptFailed
  | ftpWeirdPassReply | ftpAcceptTimeout | ftpWeirdPasvReply | ftpWeird227Format | ftpCantGetHost
  | http2 | ftpCouldntSetType | partialFile | ftpCouldntRetrFile | obsolete20 | quoteError
  | httpReturnedError | writeError | obsolete24 | uploadFailed | readError | outOfMemory
  | operationTimedout | obsolete29 | ftpPortFailed | ftpCouldntUseRest | obsolete32 | rangeError
  | obsolete34 | sslConnectError | badDownloadResume | fileCouldntReadFile | ldapCannotBind
  | ldapSearchFailed | obsolete40 | obsolete41 | abortedByCallback | badFunctionArgument
  | obsolete44 | interfaceFailed | obsolete46 | tooManyRedirects | unknownOption
  | setoptOptionSyntax | obsolete50 | obsolete51 | gotNothing | sslEngineNotfound
  | sslEngineSetfailed | sendError | recvError | obsolete57 | sslCertproblem | sslCipher
  | peerFailedVerification | badContentEncoding | obsolete62 | filesizeExceeded | useSslFailed
  | sendFailRewind | sslEngineInitfailed | loginDenied | tftpNotfound | tftpPerm | remoteDiskFull
  | tftpIllegal | tftpUnknownid | remoteFileExists | tftpNosuchuser | obsolete75 | obsolete76
  | sslCacertBadfile | remoteFileNotFound | ssh | sslShutdownFailed | again | sslCrlBadfile
  | sslIssuerError | ftpPretFailed | rtspCseqError | rtspSessionError | ftpBadFileList
  | chunkFailed | noConnectionAvailable | sslPinnedpubkeynotmatch | sslInvalidcertstatus
  | http2Stream | recursiveApiCall | authError | http3 | quicConnectError | proxy | sslClientcert
  | unrecoverablePoll | tooLarge | echRequired
  deriving DecidableEq

/-- `CURL_OFF_T_MAX`. -/
def curlOffTMax : Nat := 2 ^ 63 - 1

end Gurl
